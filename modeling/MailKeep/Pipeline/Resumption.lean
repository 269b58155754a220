import MailKeep.Pipeline.Serving

/-! A rollover that is cut off: what the folder shows after the restart and one more pass, against what the pass would have
made of it. -/
namespace MailKeep
open Program Backend

namespace Mirror

section
variable (M : Mirror)

/-- What mail that is read one after the other makes of the locations. -/
def written (mails : List Mail) (rows : Set LocationEntry) : Set LocationEntry :=
  Keyed.writeAll LocationEntry.content ((mails.filter fun m => M.Reads (M.computeHash m.body)).map M.entry) rows

def RowAt (w : World) (uidvalidity : Option U32) (lastUid : U32) : Prop :=
  ∃ row ∈ w.db.folders, row.id = M.folderId ∧ row.uidvalidity = uidvalidity ∧ row.lastUid = lastUid

structure AtRest (uidvalidity : Option U32) (lastUid : U32) (rows : Set LocationEntry) (w : World) : Prop where
  row : M.RowAt w uidvalidity lastUid
  drained : M.Drained w
  settled : M.settled w = rows

/-- The mail from `a` on and below `n` is ingested over these locations; the cursor on record goes no further. -/
structure Ingested (rows : Set LocationEntry) (a n : Nat) (lastUid : U32) (w : World) : Prop where
  row : M.RowAt w (some M.uidvalidity) lastUid
  resume : (lastUid.saturatingAdd 1).val ≤ n
  stored : ∀ m ∈ M.mails, m.uid.val < n → w.raw M.accountId (M.computeHash m.body) ≠ none
  settled : M.settled w = M.written (between M.mails a n) rows

/-- The pass's side: the worker goes on between its operations, and `V` is never broken. -/
def passContract (V : World → Prop) : Contract (backend M.computeHash) :=
  ⟨M.steady, fun s => M.Orderly s ∧ V s, M.Undisturbed, M.Beside⟩

structure Stamped (lastUid : U32) (s t : World) : Prop where
  row : M.RowAt t (some M.uidvalidity) lastUid
  raw : t.raw = s.raw
  settled : M.settled t = M.settled s
  drained : M.Drained s → M.Drained t

end

section
variable {M : Mirror} {V K : World → Prop} {s t : World} {rows : Set LocationEntry} {a n k : Nat} {lastUid : U32}

theorem written_append (mails mails' : List Mail) : M.written (mails ++ mails') rows =
    M.written mails' (M.written mails rows) := by
  rw [written, List.filter_append, List.map_append, Keyed.writeAll_append]
  rfl

theorem AtRest.lasting {uidvalidity : Option U32} : M.Lasting (M.AtRest uidvalidity lastUid rows) := by
  intro s t h undisturbed
  refine ⟨?_, undisturbed.drained h.drained, undisturbed.settled.trans h.settled⟩
  rw [RowAt, undisturbed.folders]
  exact h.row

theorem Ingested.lasting : M.Lasting (M.Ingested rows a n lastUid) := by
  intro s t h undisturbed
  refine ⟨?_, h.resume, ?_, undisturbed.settled.trans h.settled⟩
  · rw [RowAt, undisturbed.folders]
    exact h.row
  · rw [undisturbed.raw]
    exact h.stored

/-- Where no more mail comes. -/
private theorem Ingested.extend (h : M.Ingested rows a n lastUid s) (none : between M.mails n k = [])
    (han : a ≤ n) (hnk : n ≤ k) :
    M.Ingested rows a k lastUid s where
  row := h.row
  resume := h.resume.trans hnk
  stored := fun m hm below => by
    refine h.stored m hm (not_le.mp fun reached => ?_)
    have inside : m ∈ between M.mails n k := mem_between.mpr ⟨hm, reached, below⟩
    rw [none] at inside
    cases inside
  settled := by rw [h.settled, ← between_append M.ascending.sorted han hnk, none, List.append_nil]

/-- A scan from the start has nothing behind it. -/
theorem AtRest.ingested (h : M.AtRest (some M.uidvalidity) 0 rows s) : M.Ingested rows 1 1 0 s where
  row := h.row
  resume := le_rfl
  stored := fun m hm below => absurd (M.ascending.positive m hm) (by omega)
  settled := by
    rw [h.settled, between_empty le_rfl]
    rfl

theorem passContract_stable : (M.passContract V).Stable := ⟨.refl, .trans⟩

theorem Lasting.kept (lasting : M.Lasting K) : Kept (M.passContract V) K := fun s t h _ hr => lasting s t h hr

/-- Nothing of the database changes. -/
theorem Beside.same (db : t.db = s.db) : M.Beside s t := by
  refine ⟨fun j hj => ?_, fun j hj => .inl ?_, fun _ => by rw [db]⟩
  · rw [db]
    exact hj
  · rwa [db] at hj

/-- An operation that changes neither the database nor the raw blobs. -/
private theorem aside_pass (lasting : M.Lasting V) {o : BackendOp} {Q : o.Value → Prop} {err : Error → World → Prop}
    (same : ∀ c w, (backendExec M.computeHash o c w).2.db = w.db ∧ (backendExec M.computeHash o c w).2.raw = w.raw)
    (replies : ∀ c w, M.steady w o c → Q (backendExec M.computeHash o c w).1) (kept : M.Lasting K) (hK : K s) :
    SafeAct (M.passContract V) (fun r t => K t ∧ Q r) err (perform o) s := by
  apply perform_rule
  intro s₁ hv hr c hc
  obtain ⟨db, raw⟩ := same c s₁
  obtain ⟨orderly, undisturbed⟩ := hv.1.same db raw
  exact ⟨⟨orderly, lasting _ _ hv.2 undisturbed⟩, Beside.same db, fun t _ ht =>
    ⟨kept _ _ (kept _ _ (kept _ _ hK hr) undisturbed) ht, replies c s₁ hc⟩⟩

/-- One whose reply is of no account. -/
theorem plain_pass (lasting : M.Lasting V) {o : BackendOp} {err : Error → World → Prop}
    (same : ∀ c w, (backendExec M.computeHash o c w).2.db = w.db ∧ (backendExec M.computeHash o c w).2.raw = w.raw)
    (kept : M.Lasting K) (hK : K s) : SafeAct (M.passContract V) (fun _ t => K t) err (perform o) s := by
  have aside : SafeAct (M.passContract V) (fun _ t => K t ∧ True) err (perform o) s :=
    aside_pass (Q := fun _ => True) lasting same (fun _ _ _ => trivial) kept hK
  apply Safe.weaken aside
  intro r _ _ h
  cases r with
  | ok _ => exact h.1
  | error _ => exact h

/-- A transaction that goes through leads from `K` to `next`; one that fails changes nothing. -/
private theorem transact_pass {x : Txn} {next : World → Prop} (kept : M.Lasting K) (keptNext : M.Lasting next)
    (hK : K s)
    (commit : ∀ s₁ d r db, M.Orderly s₁ → K s₁ → M.steady s₁ (.transact x) (.ok d) → x.body d s₁.db = .ok (r, db) → ∀ log,
      M.Orderly { s₁ with db := db, log := log } ∧ V { s₁ with db := db, log := log } ∧
        M.Beside s₁ { s₁ with db := db, log := log } ∧ next { s₁ with db := db, log := log }) :
    SafeAct (M.passContract V) (fun _ t => next t) (fun _ _ => True) (transact x) s := by
  apply transact_rule
  intro s₁ hv hr c hc
  rcases s₁.transact_cases x c with ⟨e, he⟩ | ⟨d, r, db, rfl, hbody, hok⟩
  · rw [he]
    exact ⟨hv, .refl s₁, fun _ _ _ => ⟨fun _ h => (by cases h), fun _ _ => trivial⟩⟩
  · rw [hok]
    obtain ⟨orderly, v, beside, after⟩ := commit s₁ d r db hv.1 (kept _ _ hK hr) hc hbody _
    exact ⟨⟨orderly, v⟩, beside, fun t _ ht => ⟨fun _ _ => keptNext _ _ after ht, fun _ h => by cases h⟩⟩

theorem stamped {lastSyncedAt : DateTimeUtc} {db : Database} (log : List Event) (h : M.Orderly s)
    (ok : FolderRepository.updateSyncState M.folderId M.uidvalidity lastUid lastSyncedAt s.db = .ok ((), db)) :
    M.Orderly { s with db := db, log := log } ∧ M.Beside s { s with db := db, log := log } ∧
      M.Stamped lastUid s { s with db := db, log := log } := by
  obtain ⟨⟨row, hrow, id⟩, rfl⟩ := FolderRepository.updateSyncState_ok ok
  have there : row.synced M.uidvalidity lastUid lastSyncedAt ∈
      (s.db.setSyncState M.folderId M.uidvalidity lastUid lastSyncedAt).folders :=
    Database.mem_setSyncState.mpr ⟨row, hrow, (if_pos id).symm⟩
  refine ⟨h.aside rfl rfl rfl rfl rfl ⟨h.known.account, h.known.folder.1, _, there, id⟩,
    ⟨fun _ hj => hj, fun _ hj => .inl hj, fun _ => rfl⟩, ⟨_, there, id, rfl, rfl⟩, rfl, rfl, fun drained => drained⟩

/-- The clock is read, and the row of the folder stamped. -/
theorem recordSyncProgress_pass (lasting : M.Lasting V) {next : World → Prop} (kept : M.Lasting K)
    (keptNext : M.Lasting next) (hK : K s)
    (step : ∀ t u, K t → M.Stamped lastUid t u → next u ∧ V u) :
    SafeAct (M.passContract V) (fun _ t => next t) (fun _ _ => True)
      (recordSyncProgress M.folderId M.uidvalidity lastUid) s := by
  apply SafeAct.seq passContract_stable (plain_pass (o := .now) lasting (fun _ _ => ⟨rfl, rfl⟩) kept hK)
  intro now t _ hK
  apply transact_pass kept keptNext hK
  intro s₁ d r db orderly hK _ ok log
  obtain ⟨orderly', beside, stamp⟩ := stamped log orderly ok
  obtain ⟨after, v⟩ := step _ _ hK stamp
  exact ⟨orderly', v, beside, after⟩

/-- With no job of the folder waiting, nothing will be shown once its locations are dropped. -/
theorem dropped {uidvalidity : Option U32} {m : Nat} {db : Database} (log : List Event) (h : M.Orderly s)
    (rest : M.AtRest uidvalidity lastUid rows s) (ok : MessageLocationRepository.deleteByFolderId M.folderId s.db = .ok (m, db)) :
    M.Orderly { s with db := db, log := log } ∧ M.Beside s { s with db := db, log := log } ∧
      M.AtRest uidvalidity lastUid ∅ { s with db := db, log := log } := by
  obtain rfl := MessageLocationRepository.deleteByFolderId_ok ok
  have fewer : ∀ l ∈ (s.db.dropLocations M.folderId).locations, l ∈ s.db.locations :=
    fun _ hl => (Database.mem_dropLocations.mp hl).1
  have constrained : (s.db.dropLocations M.folderId).Constrained :=
    ⟨h.constrained.content, fun l hl l' hl' => h.constrained.place l (fewer l hl) l' (fewer l' hl'),
      fun l hl => h.constrained.located l (fewer l hl), h.constrained.ids⟩
  have drained : M.Drained { s with db := s.db.dropLocations M.folderId, log := log } := rest.drained
  refine ⟨⟨constrained, ⟨h.known.account, h.known.folder⟩, h.fresh, h.blobs, h.archived, h.queue, h.inTurn⟩,
    ⟨fun _ hj => hj, fun _ hj => .inl hj, fun busy => absurd rest.drained busy⟩, rest.row, drained, ?_⟩
  rw [settled_of_drained drained]
  apply Set.eq_empty_iff_forall_notMem.mpr
  rintro e ⟨l, hl, here, -⟩
  exact (Database.mem_dropLocations.mp hl).2 here

/-- The job of the next mail goes behind all that wait. -/
private theorem behind_waiting {d : Draw} {m : Mail} {job : Job} {db : Database} (h : M.Orderly s)
    (clock : ∀ j ∈ s.db.jobs, M.Open j → M.Reads j.payload.contentHash = true → j.scheduledAt ≤ d.now)
    (ok : JobRepository.enqueueRaw d.now "parse_message" (M.job m) PRIORITY_INGEST s.db = .ok (job, db)) :
    ∀ q ∈ M.waiting s, claimKey job < q.1 := by
  have id := (JobRepository.enqueueRaw_fields ok).1
  have priority := JobRepository.enqueueRaw_priority ok
  rw [JobRepository.enqueueRaw_eq] at ok
  have new := JobRepository.enqueueDelayed_ok ok
  rintro q ⟨j, hj, live, reads, rfl⟩
  have same : job.priority = j.priority := priority.trans (h.queue j hj live).2.1.symm
  refine Prod.Lex.toLex_lt_toLex.mpr (.inr ⟨same, Prod.Lex.toLex_lt_toLex.mpr ?_⟩)
  have scheduled : job.scheduledAt = d.now := new.scheduledAt.trans (Int.add_zero _)
  rcases (clock j hj live reads).lt_or_eq with earlier | now
  · exact .inl (OrderDual.toDual_lt_toDual.mpr (scheduled ▸ earlier))
  · refine .inr ⟨congrArg OrderDual.toDual (scheduled.trans now.symm), OrderDual.toDual_lt_toDual.mpr ?_⟩
    rw [id]
    exact h.fresh j hj

private theorem waiting_added {job : Job} (jobs : ∀ j, j ∈ t.db.jobs ↔ j ∈ s.db.jobs ∨ j = job)
    (x : Rank × LocationEntry) : x ∈ M.waiting t ↔ M.Waits job x ∨ x ∈ M.waiting s := by
  constructor
  · rintro ⟨j, hj, waits⟩
    rcases (jobs j).mp hj with old | rfl
    · exact .inr ⟨j, old, waits⟩
    · exact .inl waits
  · rintro (waits | ⟨j, hj, waits⟩)
    · exact ⟨job, (jobs job).mpr (.inr rfl), waits⟩
    · exact ⟨j, (jobs j).mpr (.inl hj), waits⟩

/-- A job behind all that wait writes its mail last, if the mail is one that reads. -/
private theorem settled_added {m : Mail} {job : Job} (jobs : ∀ j, j ∈ t.db.jobs ↔ j ∈ s.db.jobs ∨ j = job)
    (shown : t.db.shown M.folderId = s.db.shown M.folderId) (payload : job.payload = M.job m)
    (pending : job.status = .pending) (last : ∀ q ∈ M.waiting s, claimKey job < q.1) :
    M.settled t = M.written [m] (M.settled s) := by
  have live : M.Open job := ⟨payload ▸ rfl, .inl pending⟩
  have entry : job.payload.entry = M.entry m := by rw [payload]; rfl
  have hash : job.payload.contentHash = M.computeHash m.body := by rw [payload]; rfl
  change Keyed.settled _ (M.waiting t) (t.db.shown M.folderId) = _
  rw [shown]
  cases reads : M.Reads (M.computeHash m.body) with
  | true =>
    have joined : M.waiting t = insert (claimKey job, M.entry m) (M.waiting s) := by
      ext x
      rw [waiting_added jobs x, Set.mem_insert_iff]
      refine or_congr_left ⟨fun w => w.2.2.trans (entry ▸ rfl), fun he => ⟨live, hash ▸ reads, he.trans (entry ▸ rfl)⟩⟩
    have filtered : [m].filter (fun m => M.Reads (M.computeHash m.body)) = [m] := List.filter_cons_of_pos reads
    rw [joined, Keyed.settled_join (p := (claimKey job, M.entry m)) last, written, filtered]
    rfl
  | false =>
    have same : M.waiting t = M.waiting s := by
      ext x
      rw [waiting_added jobs x]
      apply or_iff_right
      intro w
      cases (hash ▸ w.2.1).symm.trans reads
    have filtered : [m].filter (fun m => M.Reads (M.computeHash m.body)) = [] :=
      List.filter_cons_of_neg (by simp [reads])
    rw [same, written, filtered]
    rfl

theorem enqueued {d : Draw} {m : Mail} {job : Job} {db : Database} (log : List Event) (h : M.Orderly s)
    (stored : s.raw M.accountId (M.computeHash m.body) ≠ none)
    (clock : ∀ j ∈ s.db.jobs, M.Open j → M.Reads j.payload.contentHash = true → j.scheduledAt ≤ d.now)
    (ok : JobRepository.enqueueRaw d.now "parse_message" (M.job m) PRIORITY_INGEST s.db = .ok (job, db)) :
    M.Orderly { s with db := db, log := log } ∧ M.Beside s { s with db := db, log := log } ∧
      db.folders = s.db.folders ∧
      M.settled { s with db := db, log := log } = M.written [m] (M.settled s) := by
  obtain ⟨payload, pending, rest, jobs⟩ := JobRepository.enqueueRaw_ok ok
  have jobType := (JobRepository.enqueueRaw_fields ok).2
  have priority := JobRepository.enqueueRaw_priority ok
  have last := behind_waiting h clock ok
  rw [JobRepository.enqueueRaw_eq] at ok
  have new := JobRepository.enqueueDelayed_ok ok
  have shown : db.shown M.folderId = s.db.shown M.folderId := by
    rw [rest]
    rfl
  refine ⟨⟨?_, ?_, new.fresh h.fresh, h.blobs, h.archived, fun j hj open' => ?_, fun j hj running x waits p hp content => ?_⟩,
    ⟨fun j hj => (jobs j).mpr (.inl hj), fun j hj => ?_, fun _ => shown⟩, ?_,
    settled_added (t := { s with db := db, log := log }) jobs shown payload pending last⟩
  · change db.Constrained
    rw [rest]
    exact ⟨h.constrained.content, h.constrained.place, h.constrained.located, h.constrained.ids⟩
  · change db.Knows _ _
    rw [rest]
    exact ⟨h.known.account, h.known.folder⟩
  · rcases (jobs j).mp hj with old | rfl
    · exact h.queue j old open'
    · rw [payload]
      exact ⟨jobType, priority, rfl, stored⟩
  · rcases (jobs j).mp hj with old | rfl
    · rcases (waiting_added (t := { s with db := db, log := log }) jobs p).mp hp with ⟨-, -, rfl⟩ | old'
      · exact (last x ⟨j, old, waits⟩).le
      · exact h.inTurn j old running x waits p old' content
    · cases pending.symm.trans running
  · rcases (jobs j).mp hj with old | rfl
    · exact .inl old
    · exact .inr pending
  · rw [rest]

/-- The blob of a mail whose forerunners all have theirs. -/
theorem Orderly.stored {m : Mail} (h : M.Orderly s) (hm : m ∈ M.mails)
    (before : ∀ m' ∈ M.mails, m'.uid.val < m.uid.val → s.raw M.accountId (M.computeHash m'.body) ≠ none) :
    M.Orderly { s with raw := placeBlob s.raw M.accountId (M.computeHash m.body) m.body } where
  constrained := h.constrained
  known := h.known
  fresh := h.fresh
  blobs := fun key bytes hb => placeBlob_kept (h.blobs key bytes hb) _
  archived := fun key bytes hb => by
    by_cases own : M.computeHash m.body = key
    · subst own
      have placed : some ((s.raw M.accountId (M.computeHash m.body)).getD m.body) = some bytes := by
        rw [← hb]
        exact (if_pos ⟨rfl, rfl⟩).symm
      cases there : s.raw M.accountId (M.computeHash m.body) with
      | some b =>
        rw [there, Option.getD_some] at placed
        exact h.archived _ _ (there.trans placed)
      | none =>
        rw [there, Option.getD_none] at placed
        rw [← placed]
        refine storeAll_first M.ascending.sorted hm ?_ fun m' hm' earlier same => before m' hm' earlier
          (same ▸ there)
        cases old : M.blobs M.accountId (M.computeHash m.body) with
        | none => rfl
        | some b => cases (h.blobs _ _ old).symm.trans there
    · exact h.archived key bytes ((placeBlob_other own).symm.trans hb)
  queue := fun j hj live => by
    obtain ⟨jobType, priority, account, there⟩ := h.queue j hj live
    refine ⟨jobType, priority, account, fun gone => ?_⟩
    obtain ⟨bytes, hb⟩ := Option.ne_none_iff_exists'.mp there
    cases (placeBlob_kept hb _).symm.trans gone
  inTurn := h.inTurn

/-- `V` lets a scan from `a` on come to `k`. -/
def Admits (M : Mirror) (V : World → Prop) (rows : Set LocationEntry) (a k : Nat) : Prop :=
  ∀ n lastUid w, a ≤ n → n ≤ k → M.Ingested rows a n lastUid w → V w

section
variable {m : Mail} (admits : M.Admits V rows a k) (hm : m ∈ M.mails) (low : a ≤ n)
    (here : n ≤ m.uid.val) (high : m.uid.val < k)
  (next : between M.mails n (m.uid.val + 1) = [m])
include admits hm low here high next

private theorem putRaw_pass (h : M.Ingested rows a n lastUid s) :
    SafeAct (M.passContract V) (fun hash t => hash = M.computeHash m.body ∧
        M.Ingested rows a n lastUid t ∧ t.raw M.accountId (M.computeHash m.body) ≠ none) (fun _ _ => True)
      (putRaw M.accountId m.body) s := by
  have before {t : World} (h : M.Ingested rows a n lastUid t) :
      ∀ m' ∈ M.mails, m'.uid.val < m.uid.val → t.raw M.accountId (M.computeHash m'.body) ≠ none := by
    intro m' hm' earlier
    refine h.stored m' hm' (not_le.mp fun reached => ?_)
    have inside : m' ∈ between M.mails n (m.uid.val + 1) := mem_between.mpr ⟨hm', reached, by omega⟩
    rw [next] at inside
    cases List.mem_singleton.mp inside
    omega
  apply @SafeAct.call (backend M.computeHash) _ _ _ _ _ (.putRaw M.accountId m.body) id s
  intro s₁ hv hr c _
  have h₁ := Ingested.lasting s s₁ h hr
  have placed : M.Orderly { s₁ with raw := placeBlob s₁.raw M.accountId (M.computeHash m.body) m.body } :=
    hv.1.stored hm (before h₁)
  have h₂ : M.Ingested rows a n lastUid { s₁ with raw := placeBlob s₁.raw M.accountId (M.computeHash m.body) m.body } := by
    refine ⟨h₁.row, h₁.resume, fun m' hm' below gone => ?_, h₁.settled⟩
    obtain ⟨bytes, hb⟩ := Option.ne_none_iff_exists'.mp (h₁.stored m' hm' below)
    cases (placeBlob_kept hb _).symm.trans gone
  have v := admits n lastUid _ low (here.trans high.le) h₂
  rcases c with _ | ⟨text, _ | _⟩
  · refine ⟨⟨placed, v⟩, Beside.same rfl, fun t _ ht => ⟨fun hash hh => ?_, fun _ hh => by cases hh⟩⟩
    cases hh
    refine ⟨rfl, Ingested.lasting _ t h₂ ht, ?_⟩
    rw [show t.raw = _ from Undisturbed.raw ht]
    exact fun gone => by cases (if_pos ⟨rfl, rfl⟩).symm.trans gone
  · exact ⟨hv, Beside.same rfl, fun _ _ _ => ⟨fun _ hh => (by cases hh), fun _ _ => trivial⟩⟩
  · exact ⟨⟨placed, v⟩, Beside.same rfl, fun _ _ _ => ⟨fun _ hh => (by cases hh), fun _ _ => trivial⟩⟩

/-- A mail is ingested. -/
private theorem ingestRaw_pass (lasting : M.Lasting V) (h : M.Ingested rows a n lastUid s) :
    SafeAct (M.passContract V) (fun _ t => M.Ingested rows a (m.uid.val + 1) lastUid t) (fun _ _ => True)
      (ingestRaw ⟨M.accountId, M.folderId, m.uid, M.uidvalidity, m.internalDate, mapFlags m.flags, m.body⟩) s := by
  refine SafeAct.seq passContract_stable (putRaw_pass admits hm low here high next h)
    fun hash t _ ⟨own, h, there⟩ => ?_
  subst own
  have kept : M.Lasting fun w => M.Ingested rows a n lastUid w ∧ w.raw M.accountId (M.computeHash m.body) ≠ none :=
    fun s t h undisturbed => ⟨Ingested.lasting s t h.1 undisturbed, undisturbed.raw ▸ h.2⟩
  have enqueue : SafeAct (M.passContract V) (fun _ t => M.Ingested rows a (m.uid.val + 1) lastUid t)
    (fun _ _ => True)
      (transact (.enqueueRaw "parse_message" (M.job m) PRIORITY_INGEST)) t := by
    refine transact_pass kept Ingested.lasting ⟨h, there⟩ fun s₁ d job db orderly ⟨h, there⟩ clock ok log => ?_
    obtain ⟨orderly', beside, folders, settled⟩ := enqueued log orderly there clock ok
    have after : M.Ingested rows a (m.uid.val + 1) lastUid { s₁ with db := db, log := log } := by
      refine ⟨?_, h.resume.trans (by omega), fun m' hm' below => ?_, ?_⟩
      · change ∃ row ∈ db.folders, _
        rw [folders]
        exact h.row
      · by_cases early : m'.uid.val < n
        · exact h.stored m' hm' early
        · have inside : m' ∈ between M.mails n (m.uid.val + 1) := mem_between.mpr ⟨hm', not_lt.mp early, below⟩
          rw [next] at inside
          rw [List.mem_singleton.mp inside]
          exact there
      · rw [settled, h.settled, ← written_append, ← next, between_append M.ascending.sorted low (by omega)]
    exact ⟨orderly', admits _ lastUid _ (by omega) high after, beside, after⟩
  apply SafeAct.seq passContract_stable enqueue
  intro job u _ h
  exact SafeAct.seq passContract_stable (plain_pass (o := .note _) lasting (fun _ _ => ⟨rfl, rfl⟩) Ingested.lasting h) fun _ _ _ h =>
    SafeAct.pure fun v _ hr => Ingested.lasting _ v h hr

private theorem ingestFetch_pass {folder : FolderConfig} (own : folder.id = M.folderId) (lasting : M.Lasting V)
    (h : M.Ingested rows a n lastUid s) :
    SafeAct (M.passContract V) (fun _ t => M.Ingested rows a (m.uid.val + 1) lastUid t) (fun _ _ => True)
      (ingestFetch M.accountId folder M.uidvalidity m.uid m.body (some m.internalDate) m.flags) s := by
  have date : SafeAct (M.passContract V) (fun date t => date = m.internalDate ∧ M.Ingested rows a n lastUid t)
      (fun (_ : Error) _ => True) (dateOrNow (some m.internalDate)) s :=
    SafeAct.pure fun t _ hr => ⟨rfl, Ingested.lasting s t h hr⟩
  refine SafeAct.seq passContract_stable date fun date t _ ⟨same, h⟩ => ?_
  subst same
  rw [own]
  apply SafeAct.seq passContract_stable (ingestRaw_pass admits hm low here high next lasting h)
  intro _ u _ h
  exact plain_pass (o := .setStatus M.accountId .ingestedMessage) lasting (fun _ _ => ⟨rfl, rfl⟩) Ingested.lasting h

end

theorem Ingested.stamp {cursor : U32} (h : M.Ingested rows a n lastUid s) (stamp : M.Stamped cursor s t)
    (resume : (cursor.saturatingAdd 1).val ≤ n) : M.Ingested rows a n cursor t :=
  ⟨stamp.row, resume, stamp.raw ▸ h.stored, stamp.settled.trans h.settled⟩

/-- The answers that are still to come of a window from `b` to below `k`, of which the mail below `n` is ingested. -/
def Answering (M : Mirror) (rows : Set LocationEntry) (a b k : Nat)
    (items : List (Except ImapError Fetch)) (p : Progress)
    (s : World) : Prop :=
  ∃ n fault lastUid, b ≤ n ∧ n ≤ k ∧ items = answersFor (between M.mails n k) fault ∧
    (p.high.saturatingAdd 1).val ≤ n ∧
    p.fetchedAny = !(between M.mails b n).isEmpty ∧ M.Ingested rows a n lastUid s

section
variable {folder : FolderConfig} {b e : Nat} (own : folder.id = M.folderId) (lasting : M.Lasting V)
include own lasting

private theorem reading_pass (admits : M.Admits V rows a e) (low : a ≤ b) (high : k ≤ e) :
    Reading (M.passContract V) (fun _ _ => True) M.accountId folder M.uidvalidity (M.Answering rows a b k) where
  kept := by
    rintro items p s t ⟨n, fault, lastUid, hb, hk, hi, hp, any, h⟩ - hr
    exact ⟨n, fault, lastUid, hb, hk, hi, hp, any, Ingested.lasting s t h hr⟩
  one := by
    rintro uid body internalDate flags items p s - ⟨n, fault, lastUid, hb, hk, hi, hp, any, h⟩
    obtain ⟨m, rest, fault', cons, hf, left⟩ := answersFor_cons hi.symm
    obtain ⟨⟨here, below⟩, hm, next, tail⟩ := between_cons M.ascending.sorted cons
    cases hf
    apply Safe.weaken (ingestFetch_pass admits hm (low.trans hb) here (by omega) next own lasting h)
    intro r t _ ht
    cases r with
    | error _ => trivial
    | ok _ =>
      refine ⟨m.uid.val + 1, fault', lastUid, by omega, below, by rw [tail, left], ?_, ?_, ht⟩
      · have := p.high.isLt
        simp only [U32.val_saturatingAdd] at hp ⊢
        rcases le_total p.high m.uid with le | le
        · rw [max_eq_right le]
          omega
        · have le' : m.uid.val ≤ p.high.val := le
          rw [max_eq_left le]
          omega
      · rw [← between_append M.ascending.sorted hb (by omega : n ≤ m.uid.val + 1), next]
        cases between M.mails b n <;> rfl
  skip := by
    rintro fetch items p s - without ⟨n, fault, lastUid, hb, hk, hi, -⟩
    obtain ⟨m, rest, fault', -, rfl, -⟩ := answersFor_cons hi.symm
    rcases without with none | none <;> cases none
  broken := fun _ _ _ _ _ _ => trivial

omit own in
/-- The FETCH of a window. -/
private theorem uidFetch_pass {fromUid toUid : U32} {p : Progress} (resume : (p.high.saturatingAdd 1).val ≤ fromUid.val)
    (reached : fromUid.val ≤ toUid.val + 1) (h : M.Ingested rows a fromUid.val lastUid s) :
    SafeAct (M.passContract V) (fun items t => M.Answering rows a fromUid.val (toUid.val + 1) items { p with fetchedAny := false } t)
      (fun _ _ => True) (uidFetch folder M.mailbox fromUid toUid) s := by
  have fetch : SafeAct (M.passContract V) (fun r t => M.Ingested rows a fromUid.val lastUid t ∧ ∀ items, r = .ok items →
      ∃ fault, items = answersFor (between M.mails fromUid.val (toUid.val + 1)) fault) (fun (_ : Error) _ => True)
      (perform (.uidFetch folder M.mailbox fromUid toUid)) s := by
    refine aside_pass (o := .uidFetch folder M.mailbox fromUid toUid) lasting
      (fun _ _ => ⟨rfl, rfl⟩) (fun c w hc items hi => ?_)
      Ingested.lasting h
    change c = .ok items at hi
    subst hi
    exact hc
  refine SafeAct.seq passContract_stable fetch fun r t _ ⟨h, replies⟩ => ?_
  cases r with
  | error e => exact SafeAct.throw fun _ _ _ => trivial
  | ok items =>
    obtain ⟨fault, hi⟩ := replies items rfl
    refine SafeAct.pure fun u _ hr => ⟨fromUid.val, fault, lastUid, le_rfl, reached, hi, resume, ?_, Ingested.lasting _ u h hr⟩
    rw [between_empty le_rfl]
    rfl

end

/-- Before a window of a scan that ends at `e`. -/
def Scanning (M : Mirror) (rows : Set LocationEntry) (a : Nat) (e fromUid : U32) (p : Progress)
    (s : World) : Prop :=
  ScanEnds M.mailbox.upper M.mails fromUid e ∧ (∀ u, M.mailbox.upper = some u → fromUid ≤ u) ∧
    a ≤ fromUid.val ∧ (p.high.saturatingAdd 1).val ≤ fromUid.val ∧
    ∃ lastUid, M.Ingested rows a fromUid.val lastUid s

def Scanned (M : Mirror) (rows : Set LocationEntry) (a : Nat) (e : U32) (p : Progress) (s : World) : Prop :=
  a ≤ e.val + 1 ∧ (p.high.saturatingAdd 1).val ≤ e.val + 1 ∧ ∃ lastUid, M.Ingested rows a (e.val + 1) lastUid s

private theorem windowEnd_reaches {upper : Option U32} {fromUid : U32} (ahead : ∀ u, upper = some u → fromUid ≤ u) :
    fromUid.val ≤ (windowEnd upper fromUid).val := by
  cases upper with
  | none => exact windowEnd_le_max
  | some u =>
    have below : fromUid.val ≤ u.val := ahead u rfl
    rw [val_windowEnd_some]
    have := fromUid.isLt
    omega

section
variable {folder : FolderConfig} {e fromUid : U32} {p : Progress}

theorem Scanned.lasting : M.Lasting (M.Scanned rows a e p) := by
  rintro s t ⟨low, high, lastUid, h⟩ undisturbed
  exact ⟨low, high, lastUid, Ingested.lasting s t h undisturbed⟩

theorem Scanning.lasting : M.Lasting (M.Scanning rows a e fromUid p) := by
  rintro s t ⟨ends, ahead, low, high, lastUid, h⟩ undisturbed
  exact ⟨ends, ahead, low, high, lastUid, Ingested.lasting s t h undisturbed⟩

def AfterWindow (M : Mirror) (rows : Set LocationEntry) (a : Nat) (e fromUid : U32)
    (p : Progress) (s : World) : Prop :=
  if lastWindow M.mailbox.upper (windowEnd M.mailbox.upper fromUid) p.fetchedAny then M.Scanned rows a e p s
  else M.Scanning rows a e ((windowEnd M.mailbox.upper fromUid).saturatingAdd 1) p s

theorem AfterWindow.lasting : M.Lasting (M.AfterWindow rows a e fromUid p) := by
  unfold AfterWindow
  split
  · exact Scanned.lasting
  · exact Scanning.lasting

private theorem afterWindow (ends : ScanEnds M.mailbox.upper M.mails fromUid e)
    (ahead : ∀ u, M.mailbox.upper = some u → fromUid ≤ u) (low : a ≤ fromUid.val)
    (any : p.fetchedAny = !(between M.mails fromUid.val ((windowEnd M.mailbox.upper fromUid).val + 1)).isEmpty)
    (high : (p.high.saturatingAdd 1).val ≤ (windowEnd M.mailbox.upper fromUid).val + 1)
    (h : M.Ingested rows a ((windowEnd M.mailbox.upper fromUid).val + 1) lastUid s) :
      M.AfterWindow rows a e fromUid p s := by
  have reached := windowEnd_reaches ahead
  unfold AfterWindow
  cases ends with
  | last stop =>
    rw [any, if_pos stop]
    exact ⟨by omega, high, lastUid, h⟩
  | next more rest =>
    have size := windowEnd_next more
    have start : ((windowEnd M.mailbox.upper fromUid).saturatingAdd 1).val =
      (windowEnd M.mailbox.upper fromUid).val + 1 := by omega
    rw [any, more, if_neg Bool.false_ne_true]
    refine ⟨rest, fun u hu => ?_, by omega, start ▸ high, lastUid, start ▸ h⟩
    rw [hu] at more start ⊢
    have before : windowEnd (some u) fromUid < u := not_le.mp (of_decide_eq_false more)
    rw [Fin.le_def, start]
    exact before

private theorem syncWindow_pass (own : folder.id = M.folderId) (lasting : M.Lasting V)
    (admits : M.Admits V rows a (e.val + 1)) (h : M.Scanning rows a e fromUid p s) :
    SafeAct (M.passContract V) (fun p' t => M.AfterWindow rows a e fromUid p' t) (fun _ _ => True)
      (syncWindow M.accountId folder M.mailbox M.uidvalidity fromUid (windowEnd M.mailbox.upper fromUid) p) s := by
  obtain ⟨ends, ahead, low, resume, lastUid, h⟩ := h
  have reached := (windowEnd_reaches ahead).trans (Nat.le_succ _)
  have inside : (windowEnd M.mailbox.upper fromUid).val + 1 ≤ e.val + 1 := Nat.succ_le_succ ends.window_le
  -- once all is answered, the mail of the window is ingested
  have whole : ∀ p s, M.Answering rows a fromUid.val ((windowEnd M.mailbox.upper fromUid).val + 1) [] p s →
      (p.high.saturatingAdd 1).val ≤ (windowEnd M.mailbox.upper fromUid).val + 1 ∧
        p.fetchedAny = (!(between M.mails fromUid.val ((windowEnd M.mailbox.upper fromUid).val + 1)).isEmpty) ∧
        ∃ lastUid, M.Ingested rows a ((windowEnd M.mailbox.upper fromUid).val + 1) lastUid s := by
    rintro p s ⟨n, fault, lastUid, hb, hk, hi, hp, any, h⟩
    have none := answersFor_nil hi.symm
    refine ⟨hp.trans hk, ?_, lastUid, h.extend none (low.trans hb) hk⟩
    rw [any, ← between_append M.ascending.sorted hb hk, none, List.append_nil]
  refine syncWindow_rule passContract_stable _ (reading_pass own lasting admits low inside)
    (fun p => AfterWindow.lasting.kept)
    (uidFetch_pass lasting resume reached h) (fun p s _ hJ _ => ?_) fun p s _ hJ _ => ?_
  · obtain ⟨high, any, lastUid, h⟩ := whole p s hJ
    have stamp : SafeAct (M.passContract V)
        (fun _ t => M.Ingested rows a ((windowEnd M.mailbox.upper fromUid).val + 1) p.high t) (fun _ _ => True)
        (recordSyncProgress folder.id M.uidvalidity p.high) s := by
      rw [own]
      apply recordSyncProgress_pass lasting Ingested.lasting Ingested.lasting h
      intro t u ht stamp
      have after := ht.stamp stamp high
      exact ⟨after, admits _ _ _ (by omega) inside after⟩
    apply Safe.weaken stamp
    intro r t _ ht
    cases r with
    | ok _ => exact afterWindow ends ahead low any high ht
    | error _ => trivial
  · obtain ⟨high, any, lastUid, h⟩ := whole p s hJ
    exact afterWindow ends ahead low any high h

end

section
variable {folder : FolderConfig} {c e : U32} {uidvalidity : Option U32} (own : folder.id = M.folderId)
    (lasting : M.Lasting V)
include own lasting

/-- After its check a pass ingests what follows the cursor. -/
private theorem syncFrom_pass (ends : ScanEnds M.mailbox.upper M.mails (c.saturatingAdd 1) e)
    (admits : M.Admits V rows (c.saturatingAdd 1).val (max (c.saturatingAdd 1).val (e.val + 1)))
    (orderly : M.Orderly s) (h : M.Ingested rows (c.saturatingAdd 1).val (c.saturatingAdd 1).val c s) :
    SafeAct (M.passContract V)
      (fun _ t => M.settled t = M.written (between M.mails (c.saturatingAdd 1).val (e.val + 1)) rows)
        (fun _ _ => True)
      (syncFrom M.accountId folder M.mailbox M.uidvalidity c) s := by
  have done : M.Lasting fun w => M.settled w = M.written
      (between M.mails (c.saturatingAdd 1).val (e.val + 1)) rows :=
    fun _ _ h undisturbed => undisturbed.settled.trans h
  have admits' : M.Admits V rows (c.saturatingAdd 1).val (e.val + 1) :=
    fun n l w low high => admits n l w low (high.trans (le_max_right _ _))
  have valid : ∀ s₁, M.Ingested rows (c.saturatingAdd 1).val (c.saturatingAdd 1).val c s₁ → V s₁ :=
    fun s₁ => admits _ c s₁ le_rfl (le_max_left _ _)
  refine Safe.weaken (syncFrom_rule passContract_stable (M.Ingested rows (c.saturatingAdd 1).val (c.saturatingAdd 1).val c)
    (M.Scanning rows (c.saturatingAdd 1).val e) (M.Scanned rows (c.saturatingAdd 1).val e)
    (fun _ w => M.settled w = M.written (between M.mails (c.saturatingAdd 1).val (e.val + 1)) rows)
    (fun _ => Scanned.lasting.kept) (fun _ => done.kept) (fun s₁ _ h => ?_)
      (fun behind s₁ _ h => ?_) (fun ahead s₁ _ h => ?_)
    (fun fromUid p s₁ _ h => syncWindow_pass own lasting admits' h) (fun p s₁ _ h _ => ?_) (fun p s₁ _ h _ => ?_)
    ⟨orderly, valid s h⟩ h) fun r t _ ht => ?_
  · exact plain_pass (o := .setStatus M.accountId .syncing) lasting (fun _ _ => ⟨rfl, rfl⟩) Ingested.lasting h
  · -- all mail is behind the cursor
    rw [own]
    apply recordSyncProgress_pass lasting Ingested.lasting done h
    intro t u ht stamp
    have after := ht.stamp stamp ht.resume
    refine ⟨?_, valid u after⟩
    cases hu : M.mailbox.upper with
    | none =>
      rw [hu] at behind
      cases behind
    | some upper =>
      rw [hu] at behind ends
      have before : upper < c.saturatingAdd 1 := of_decide_eq_true behind
      rw [ends.known, after.settled, between_empty le_rfl, between_empty (Nat.succ_le_of_lt before)]
  · refine ⟨ends, fun u hu => ?_, le_rfl, le_rfl, c, h⟩
    rw [hu] at ahead
    exact not_lt.mp (of_decide_eq_false ahead)
  · obtain ⟨low, high, lastUid, h⟩ := h
    rw [own]
    apply recordSyncProgress_pass lasting Ingested.lasting done h
    intro t u ht stamp
    have after := ht.stamp stamp high
    exact ⟨after.settled, admits' _ _ u low le_rfl after⟩
  · obtain ⟨-, -, lastUid, h⟩ := h
    exact h.settled
  · cases r with
    | ok _ => exact ht.2
    | error _ => trivial

/-- A pass whose check leads to the cursor `c`. -/
theorem passOnce_pass (ends : ScanEnds M.mailbox.upper M.mails (c.saturatingAdd 1) e)
    (admits : M.Admits V rows (c.saturatingAdd 1).val (max (c.saturatingAdd 1).val (e.val + 1)))
    (kept : M.Lasting K) (hK : K s)
    (check : ∀ t, K t → SafeAct (M.passContract V)
      (fun r t => r = c ∧ M.Ingested rows (c.saturatingAdd 1).val (c.saturatingAdd 1).val c t) (fun _ _ => True)
      (checkUidvalidity folder M.uidvalidity) t) :
    SafeAct (M.passContract V)
      (fun _ t => M.settled t = M.written (between M.mails (c.saturatingAdd 1).val (e.val + 1)) rows)
        (fun _ _ => True)
      (passOnce M.accountId folder) s := by
  have opened : SafeAct (M.passContract V) (fun r t => K t ∧ ∀ mailbox, r = .ok mailbox → mailbox = M.mailbox)
      (fun (_ : Error) _ => True) (perform (.select folder)) s := by
    refine aside_pass (o := .select folder) lasting (fun c _ => ?_) (fun c w hc mailbox hm => ?_) kept hK
    · cases c <;> exact ⟨rfl, rfl⟩
    · cases c with
      | ok mailbox' =>
        cases hm
        exact hc
      | error _ => cases hm
  have select : SafeAct (M.passContract V) (fun mailbox t => mailbox = M.mailbox ∧ K t)
      (fun _ _ => True) (selectFolder folder) s := by
    refine SafeAct.seq passContract_stable opened fun r t _ ⟨hK, own⟩ => ?_
    rcases r with (text | text) | mailbox
    · exact SafeAct.throw fun _ _ _ => trivial
    · exact SafeAct.throw fun _ _ _ => trivial
    · exact SafeAct.pure fun u _ hr => ⟨own mailbox rfl, kept _ _ hK hr⟩
  have sync : SafeAct (M.passContract V)
      (fun _ t => M.settled t = M.written (between M.mails (c.saturatingAdd 1).val (e.val + 1)) rows)
        (fun _ _ => True)
      (syncFolder M.accountId folder) s := by
    refine SafeAct.seq passContract_stable select fun mailbox t _ ⟨same, hK⟩ => ?_
    subst same
    change SafeAct _ _ _ (checkUidvalidity folder M.uidvalidity >>= _) t
    refine SafeAct.seq passContract_stable (check t hK) fun r u hv ⟨same, h⟩ => ?_
    subst same
    exact syncFrom_pass own lasting ends admits hv.1 h
  exact SafeAct.seq passContract_stable sync fun _ t _ h => SafeAct.pure fun u _ hr =>
    (Undisturbed.settled hr).trans h

omit own in
/-- The check of a folder that has the server's UIDVALIDITY. -/
theorem check_same (same : folder.rolledOver M.uidvalidity = false) (cursor : folder.lastUid = c)
    (h : M.Ingested rows a a c s) :
    SafeAct (M.passContract V) (fun r t => r = c ∧ M.Ingested rows a a c t) (fun _ _ => True)
      (checkUidvalidity folder M.uidvalidity) s := by
  unfold checkUidvalidity
  rw [if_neg (by simp [same])]
  exact SafeAct.seq passContract_stable (plain_pass (o := .note _) lasting (fun _ _ => ⟨rfl, rfl⟩) Ingested.lasting h) fun _ _ _ h =>
    SafeAct.pure fun t _ hr => ⟨cursor, Ingested.lasting _ t h hr⟩

/-- The check of one that has another: the cursor is reset, and the locations go. -/
theorem check_rollover (turned : folder.rolledOver M.uidvalidity = true)
    (reset : ∀ w, M.AtRest (some M.uidvalidity) 0 rows w → V w)
    (bare : ∀ w, M.Ingested ∅ 1 1 0 w → V w) (h : M.AtRest uidvalidity lastUid rows s) :
    SafeAct (M.passContract V) (fun r t => r = 0 ∧ M.Ingested ∅ 1 1 0 t) (fun _ _ => True)
      (checkUidvalidity folder M.uidvalidity) s := by
  have cursor {t : World} (h : M.AtRest uidvalidity lastUid rows t) :
      SafeAct (M.passContract V) (fun _ t => M.AtRest (some M.uidvalidity) 0 rows t) (fun _ _ => True)
        (recordSyncProgress M.folderId M.uidvalidity 0) t := by
    apply recordSyncProgress_pass lasting AtRest.lasting AtRest.lasting h
    intro t u ht stamp
    have after : M.AtRest (some M.uidvalidity) 0 rows u :=
      ⟨stamp.row, stamp.drained ht.drained, stamp.settled.trans ht.settled⟩
    exact ⟨after, reset u after⟩
  have drop {t : World} (h : M.AtRest (some M.uidvalidity) 0 rows t) :
      SafeAct (M.passContract V) (fun _ t => M.Ingested ∅ 1 1 0 t) (fun _ _ => True)
        (transact (.deleteLocationsForFolder M.folderId)) t := by
    apply transact_pass AtRest.lasting Ingested.lasting h
    intro s₁ d n db orderly h _ ok log
    obtain ⟨orderly', beside, rest⟩ := dropped log orderly h ok
    exact ⟨orderly', bare _ rest.ingested, beside, rest.ingested⟩
  have change : SafeAct (M.passContract V) (fun _ t => M.Ingested ∅ 1 1 0 t) (fun _ _ => True)
      (handleUidvalidityChange M.folderId M.uidvalidity) s := by
    apply SafeAct.seq passContract_stable (plain_pass (o := .note _) lasting (fun _ _ => ⟨rfl, rfl⟩) AtRest.lasting h)
    intro _ t _ h
    apply SafeAct.seq passContract_stable (cursor h)
    intro _ u _ h
    exact SafeAct.seq passContract_stable (drop h) fun _ _ _ h => SafeAct.pure fun v _ hr =>
      Ingested.lasting _ v h hr
  unfold checkUidvalidity
  rw [if_pos turned, own]
  exact SafeAct.seq passContract_stable change fun _ _ _ h => SafeAct.pure fun t _ hr =>
    ⟨rfl, Ingested.lasting _ t h hr⟩

end

end
end Mirror
end MailKeep
