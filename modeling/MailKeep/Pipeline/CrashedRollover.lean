import MailKeep.Pipeline.Resumption

/-! A rollover that a crash cuts off, and the pass after the restart. -/
namespace MailKeep
open Program Backend

inductive Party
  | sync
  | worker
deriving DecidableEq

/-- A restart: what ran waits again, and what only memory held is gone. -/
def Restarted (s t : World) : Prop :=
  ∃ n, JobRepository.resetRunningToPending s.db = .ok (n, t.db) ∧ t.raw = s.raw ∧ t.attachments = s.attachments

namespace Mirror

section
variable (M : Mirror)

def system : System (backend M.computeHash) Party (Except Error Unit) where
  allowed := M.steady
  root _ _ _ := False
  env _ _ := False
  crash _ _ := False

/-- One pass over the folder as its row has it, and beside it a worker for so many turns. -/
def started (s : World) (row : Folder) (turns : Nat) : Config (backend M.computeHash) Party (Except Error Unit) :=
  ((Config.idle s).set s .sync (passOnce M.accountId (folderConfig row)).run).set s .worker
    (work M.parseEml turns).run

structure Completed (c : Config (backend M.computeHash) Party (Except Error Unit)) : Prop where
  passed : c.result? .sync = some (.ok ())
  drained : M.Drained c.state

/-- The server has another UIDVALIDITY than the row of the folder, and no job of the folder waits. -/
structure RollsOver (row : Folder) (w : World) : Prop where
  constrained : w.db.Constrained
  known : w.db.Knows M.accountId M.folderId
  fresh : ∀ j ∈ w.db.jobs, j.id < w.db.nextJobId
  blobs : w.raw = M.blobs
  drained : M.Drained w
  mem : row ∈ w.db.folders
  own : row.id = M.folderId
  turned : (folderConfig row).rolledOver M.uidvalidity = true

/-- Where the row has the server's UIDVALIDITY already: each location that is still there is of a message that a scan
from the start reads. -/
def Replaces (w : World) : Prop := ∀ cursor, M.RowAt w (some M.uidvalidity) cursor →
    ∀ e, ScanEnds M.mailbox.upper M.mails 1 e →
  ∀ x ∈ w.db.shown M.folderId, ∃ m ∈ between M.mails 1 (e.val + 1),
    M.Reads (M.computeHash m.body) = true ∧ (M.entry m).content = x.content

/-- Where the row has the server's UIDVALIDITY already: a scan from behind the cursor comes as far through the mail as
one from the start. -/
def ResumesEvenly (w : World) : Prop := ∀ cursor, M.RowAt w (some M.uidvalidity) cursor →
    ∀ e e', ScanEnds M.mailbox.upper M.mails 1 e →
  ScanEnds M.mailbox.upper M.mails (cursor.saturatingAdd 1) e' → ∀ m ∈ M.mails, m.uid ≤ e ↔ m.uid ≤ e'

/-- How far the pass over a rollover has come, in any state that a crash can leave. -/
inductive Stage (uidvalidity : Option U32) (lastUid : U32) (rows : Set LocationEntry) (e : U32) (w : World) : Prop
  | before (h : M.AtRest uidvalidity lastUid rows w)
  | reset (h : M.AtRest (some M.uidvalidity) 0 rows w)
  | scanning (n : Nat) (cursor : U32) (low : 1 ≤ n) (high : n ≤ e.val + 1) (h : M.Ingested ∅ 1 n cursor w)

def contract (V : World → Prop) : Party → Contract (backend M.computeHash)
  | .sync => M.passContract V
  | .worker => M.workerContract V

def ending (rows : Set LocationEntry) : Party → Except Error Unit → World → Prop
  | .sync, .ok _, t => M.settled t = rows
  | _, _, _ => True

end

section
variable {M : Mirror} {V : World → Prop} {s t w : World} {row : Folder} {rows : Set LocationEntry}
    {uidvalidity : Option U32}
  {lastUid e : U32}

theorem Stage.lasting : M.Lasting (M.Stage uidvalidity lastUid rows e) := by
  rintro s t (h | h | ⟨n, cursor, low, high, h⟩) undisturbed
  · exact .before (AtRest.lasting s t h undisturbed)
  · exact .reset (AtRest.lasting s t h undisturbed)
  · exact .scanning n cursor low high (Ingested.lasting s t h undisturbed)

/-- The pass and the worker beside each other: each keeps what the other relies on. -/
theorem started_run (lasting : M.Lasting V) (orderly : M.Orderly s) (v : V s) (idle : M.Idle s)
    (pass : SafeAct (M.passContract V) (fun _ t => M.settled t = rows) (fun _ _ => True) (passOnce M.accountId (folderConfig row)) s)
    {turns : Nat} {c : Config (backend M.computeHash) Party (Except Error Unit)}
    (run : M.system.Reaches (M.started s row turns) c) :
    M.Orderly c.state ∧ V c.state ∧ (M.Completed c → c.state.db.shown M.folderId = rows) := by
  have sound : M.system.Sound (M.contract V) (M.ending rows) fun w => M.Orderly w ∧ V w := by
    refine ⟨fun i => ?_, fun i s => ?_, fun i s o c ok => ?_, fun i j differ s t _ _ step => ?_, fun _ _ _ _ h => h.elim,
      fun _ _ _ h => h.elim, fun _ _ _ h => h.elim⟩
    · cases i with
      | sync => exact passContract_stable
      | worker => exact workerContract_stable
    · cases i <;> exact Iff.rfl
    · cases i <;> exact ok
    · cases i <;> cases j
      · exact absurd rfl differ
      · exact step
      · exact step
      · exact absurd rfl differ
  have start : AllSafe (M.contract V) (M.ending rows) (fun w => M.Orderly w ∧ V w) (M.started s row turns) := by
    refine ⟨⟨orderly, v⟩, fun i p hp => ?_⟩
    rw [started, Config.set_threads] at hp
    cases i with
    | worker =>
      obtain rfl := Option.some.inj hp
      exact Safe.weaken (work_worker lasting idle turns) fun _ _ _ _ => trivial
    | sync =>
      rw [if_neg Party.noConfusion, Config.set_threads] at hp
      obtain rfl := Option.some.inj hp
      apply Safe.weaken pass
      intro r t _ h
      cases r with
      | ok _ => exact h
      | error _ => trivial
  have safe := sound.reaches start run
  refine ⟨safe.1.1, safe.1.2, fun completed => ?_⟩
  rw [← settled_of_drained completed.drained]
  exact safe.returned .sync passContract_stable safe.1 (Config.result?_eq_some.mp completed.passed)

/-- A restart leaves what waits as it was, and nothing is being worked on. -/
theorem restarted (h : M.Orderly s) (r : Restarted s t) : M.Orderly t ∧ M.Idle t ∧ M.Undisturbed s t := by
  obtain ⟨n, ok, raw, -⟩ := r
  have jobs := fun j => JobRepository.mem_resetRunningToPending ok (j := j)
  obtain ⟨-, rest⟩ := Prod.mk.inj (Except.ok.inj ok)
  have same_waits : ∀ j x, M.Waits (if j.status = .running then j.reset else j) x ↔ M.Waits j x := by
    intro j x
    split
    · rename_i running
      refine and_congr_left' (and_congr_right fun _ => ?_)
      exact iff_of_true (.inl rfl) (.inr running)
    · rfl
  have waiting : M.waiting t = M.waiting s := by
    ext x
    constructor
    · rintro ⟨j, hj, waits⟩
      obtain ⟨j', hj', rfl⟩ := (jobs j).mp hj
      exact ⟨j', hj', (same_waits j' x).mp waits⟩
    · rintro ⟨j, hj, waits⟩
      exact ⟨_, (jobs _).mpr ⟨j, hj, rfl⟩, (same_waits j x).mpr waits⟩
  have still : ∀ j ∈ t.db.jobs, j.status ≠ .running := by
    intro j hj
    obtain ⟨j', -, rfl⟩ := (jobs j).mp hj
    split
    · exact JobStatus.noConfusion
    · assumption
  have was_open : ∀ j', M.Open (if j'.status = .running then j'.reset else j') → M.Open j' := by
    intro j' live
    split at live
    · rename_i running
      exact ⟨live.1, .inr running⟩
    · exact live
  refine ⟨⟨?_, ?_, fun j hj => ?_, raw ▸ h.blobs, raw ▸ h.archived, fun j hj live => ?_,
    fun j hj running => absurd running (still j hj)⟩, fun j hj _ =>
      still j hj, ⟨?_, raw, ?_, fun drained j hj live => ?_⟩⟩
  · rw [← rest]
    exact ⟨h.constrained.content, h.constrained.place, h.constrained.located, h.constrained.ids⟩
  · rw [← rest]
    exact ⟨h.known.account, h.known.folder⟩
  · obtain ⟨j', hj', rfl⟩ := (jobs j).mp hj
    have fresh := h.fresh j' hj'
    rw [← rest]
    split <;> exact fresh
  · obtain ⟨j', hj', rfl⟩ := (jobs j).mp hj
    have queued := h.queue j' hj' (was_open j' live)
    rw [raw]
    split <;> exact queued
  · rw [← rest]
    rfl
  · have shown : t.db.shown M.folderId = s.db.shown M.folderId := by
      rw [← rest]
      rfl
    rw [settled, settled, waiting, shown]
  · obtain ⟨j', hj', rfl⟩ := (jobs j).mp hj
    exact drained j' hj' (was_open j' live)

theorem RollsOver.orderly (h : M.RollsOver row s) : M.Orderly s where
  constrained := h.constrained
  known := h.known
  fresh := h.fresh
  blobs := fun _ _ hb => h.blobs ▸ hb
  archived := fun _ _ hb => storeAll_kept (h.blobs ▸ hb)
  queue := fun j hj live => absurd live (h.drained j hj)
  inTurn := fun j hj _ _ waits => absurd waits.1 (h.drained j hj)

theorem RollsOver.idle (h : M.RollsOver row s) : M.Idle s :=
  fun j hj here running => h.drained j hj ⟨here, .inr running⟩

private theorem RollsOver.atRest (h : M.RollsOver row s) : M.AtRest row.uidvalidity row.lastUid
    (s.db.shown M.folderId) s :=
  ⟨⟨row, h.mem, h.own, rfl, rfl⟩, h.drained, settled_of_drained h.drained⟩

/-- The row of the folder is the one there is. -/
theorem RowAt.eq {cursor : U32} (h : M.RowAt s uidvalidity cursor) (hrow : row ∈ s.db.folders)
    (own : row.id = M.folderId) :
    row.uidvalidity = uidvalidity ∧ row.lastUid = cursor := by
  obtain ⟨row', hrow', own', hu, hl⟩ := h
  rw [Keyed.Table.eq_of_key hrow hrow' (own.trans own'.symm)]
  exact ⟨hu, hl⟩

/-- Mail that is read once more, and what follows it: as if it had been read at one go. -/
private theorem written_resumed {a n : Nat} {e' : U32} (first : 1 ≤ a) (behind : a ≤ n) (inside : n ≤ e.val + 1)
    (even : ∀ m ∈ M.mails, m.uid ≤ e ↔ m.uid ≤ e') :
    M.written (between M.mails a (e'.val + 1)) (M.written (between M.mails 1 n) rows) =
      M.written (between M.mails 1 (e.val + 1)) rows := by
  have sorted := M.ascending.sorted
  have as_far : between M.mails a (e'.val + 1) = between M.mails a (e.val + 1) := by
    refine List.filter_congr fun m hm => congrArg _ (decide_eq_decide.mpr ?_)
    rw [Nat.lt_succ_iff, Nat.lt_succ_iff]
    exact (even m hm).symm
  have again : M.written (between M.mails a n) (M.written (between M.mails a n) (M.written (between M.mails 1 a) rows)) =
      M.written (between M.mails a n) (M.written (between M.mails 1 a) rows) := Keyed.writeAll_again
  rw [as_far, ← between_append sorted behind inside, written_append, ← between_append sorted first behind, written_append, again,
    ← written_append, ← written_append, ← List.append_assoc, between_append sorted first behind,
    between_append sorted (first.trans behind) inside]

/-- The pass over a rollover. -/
private theorem rollover_pass (own : row.id = M.folderId) (turned : (folderConfig row).rolledOver M.uidvalidity = true)
    (ends : ScanEnds M.mailbox.upper M.mails 1 e) (h : M.AtRest uidvalidity lastUid rows s) :
    SafeAct (M.passContract (M.Stage uidvalidity lastUid rows e))
      (fun _ t => M.settled t = M.written (between M.mails 1 (e.val + 1)) ∅) (fun _ _ => True)
      (passOnce M.accountId (folderConfig row)) s := by
  have admits : M.Admits (M.Stage uidvalidity lastUid rows e) ∅ 1 (max 1 (e.val + 1)) :=
    fun n cursor w low high h =>
    .scanning n cursor low (high.trans (by omega)) h
  exact passOnce_pass (c := 0) own Stage.lasting ends admits AtRest.lasting h fun t ht =>
    check_rollover own Stage.lasting turned (fun _ => .reset)
      (fun _ => .scanning 1 0 le_rfl (Nat.le_add_left 1 _)) ht

/-- The pass over a folder that has the server's UIDVALIDITY. -/
private theorem resumed_pass {cursor e : U32} (own : row.id = M.folderId) (same : row.uidvalidity = some M.uidvalidity)
    (at_cursor : row.lastUid = cursor) (ends : ScanEnds M.mailbox.upper M.mails (cursor.saturatingAdd 1) e)
    (h : M.Ingested rows (cursor.saturatingAdd 1).val (cursor.saturatingAdd 1).val cursor s) :
    SafeAct (M.passContract fun _ => True)
      (fun _ t => M.settled t = M.written (between M.mails (cursor.saturatingAdd 1).val (e.val + 1)) rows) (fun _ _ => True)
      (passOnce M.accountId (folderConfig row)) s := by
  have unturned : (folderConfig row).rolledOver M.uidvalidity = false := by
    change row.uidvalidity.any _ = false
    rw [same]
    exact decide_eq_false fun h => h rfl
  have lasting : M.Lasting fun _ => True := fun _ _ _ _ => trivial
  exact passOnce_pass own lasting ends (fun _ _ _ _ _ _ => trivial) Ingested.lasting h fun t ht =>
    check_same lasting unturned at_cursor ht

/-- What is left after the crash is replaced where the drop has happened. -/
private theorem Ingested.replaces {n : Nat} {cursor : U32} (h : M.Ingested ∅ 1 n cursor s)
    (low : 1 ≤ n) (high : n ≤ e.val + 1)
    (ends : ScanEnds M.mailbox.upper M.mails 1 e) : M.Replaces s := by
  intro _ _ e' ends' x hx
  obtain rfl := ends.unique ends'
  obtain ⟨y, hy, same⟩ : ∃ y ∈ M.settled s, y.content = x.content := Keyed.settled_key (waiting_finite s) hx
  rw [h.settled, written, Keyed.mem_writeAll] at hy
  rcases hy with last | ⟨none, -⟩
  · obtain ⟨m, hm, rfl⟩ := List.mem_map.mp last.mem
    obtain ⟨there, reads⟩ := List.mem_filter.mp hm
    rw [← between_append M.ascending.sorted low high]
    exact ⟨m, List.mem_append_left _ there, reads, same⟩
  · exact none.elim

/-- With nothing dropped yet, the rest is replaced just where it makes no difference. -/
private theorem AtRest.replaces_iff (h : M.AtRest (some M.uidvalidity) 0 rows s)
    (ends : ScanEnds M.mailbox.upper M.mails 1 e) :
    M.written (between M.mails 1 (e.val + 1)) rows = M.written (between M.mails 1 (e.val + 1)) ∅ ↔
      M.Replaces s := by
  have shown : s.db.shown M.folderId = rows := by rw [← settled_of_drained h.drained, h.settled]
  rw [written, written, Keyed.writeAll_eq_iff]
  constructor
  · intro replaced _ _ e' ends' x hx
    obtain rfl := ends.unique ends'
    obtain ⟨r, hr, same⟩ := replaced x (shown ▸ hx)
    obtain ⟨m, hm, rfl⟩ := List.mem_map.mp hr
    exact ⟨m, (List.mem_filter.mp hm).1, (List.mem_filter.mp hm).2, same⟩
  · intro replaces x hx
    obtain ⟨m, hm, reads, same⟩ := replaces 0 h.row e ends x (shown.symm ▸ hx)
    exact ⟨M.entry m, List.mem_map_of_mem (List.mem_filter.mpr ⟨hm, reads⟩), same⟩

end

section
variable {M : Mirror} {row row' : Folder} {w s : World} {turns turns' turns'' : Nat}
  {crashed resumed whole : Config (backend M.computeHash) Party (Except Error Unit)}

/-- A crash within the pass over a rollover, the restart and one more pass leave the locations that the pass would have left
just where the locations that the crash has left are replaced, if the scan resumes evenly. -/
theorem rollover_crashSafe_iff (start : M.RollsOver row w)
    (until_crash : M.system.Reaches (M.started w row turns) crashed) (restart : Restarted crashed.state s)
    (mem : row' ∈ s.db.folders) (own : row'.id = M.folderId)
    (after : M.system.Reaches (M.started s row' turns') resumed) (after_done : M.Completed resumed)
    (undisturbed : M.system.Reaches (M.started w row turns'') whole) (whole_done : M.Completed whole)
    (even : M.ResumesEvenly crashed.state) :
    resumed.state.db.shown M.folderId = whole.state.db.shown M.folderId ↔ M.Replaces crashed.state := by
  obtain ⟨e, ends⟩ := ScanEnds.exists M.mailbox.upper M.mails 1
  have first := rollover_pass start.own start.turned ends start.atRest
  have left : whole.state.db.shown M.folderId = M.written (between M.mails 1 (e.val + 1)) ∅ :=
    (started_run Stage.lasting start.orderly (.before start.atRest) start.idle first undisturbed).2.2 whole_done
  obtain ⟨orderly, stage, -⟩ := started_run Stage.lasting start.orderly
    (.before start.atRest) start.idle first until_crash
  obtain ⟨orderly, idle, restart⟩ := restarted orderly restart
  have lasting : M.Lasting fun _ => True := fun _ _ _ _ => trivial
  rw [left]
  cases stage with
  | before h =>
    -- the second pass sees the rollover too
    obtain ⟨same, -⟩ := (AtRest.lasting _ _ h restart).row.eq mem own
    have turned : (folderConfig row').rolledOver M.uidvalidity = true := by
      change row'.uidvalidity.any _ = true
      rw [same]
      exact start.turned
    have again := rollover_pass own turned ends (AtRest.lasting _ _ h restart)
    have shown := (started_run Stage.lasting orderly (.before (AtRest.lasting _ _ h restart)) idle again after).2.2 after_done
    apply iff_of_true shown
    intro cursor recorded
    obtain ⟨row₀, hrow₀, own₀, recorded₀, -⟩ := h.row
    have old : row.uidvalidity = some M.uidvalidity := recorded₀.symm.trans (recorded.eq hrow₀ own₀).1
    have turned : row.uidvalidity.any (· ≠ M.uidvalidity) = true := start.turned
    rw [old] at turned
    exact absurd rfl (of_decide_eq_true turned)
  | reset h =>
    have h' := AtRest.lasting _ _ h restart
    obtain ⟨same, at_start⟩ := h'.row.eq mem own
    have pass := resumed_pass own same at_start ends h'.ingested
    rw [(started_run lasting orderly trivial idle pass after).2.2 after_done]
    exact h.replaces_iff ends
  | scanning n cursor low high h =>
    have h' := Ingested.lasting _ _ h restart
    obtain ⟨same, at_cursor⟩ := h'.row.eq mem own
    obtain ⟨e', ends'⟩ := ScanEnds.exists M.mailbox.upper M.mails (cursor.saturatingAdd 1)
    have rest : M.Ingested (M.written (between M.mails 1 n) ∅) (cursor.saturatingAdd 1).val
        (cursor.saturatingAdd 1).val cursor s := by
      refine ⟨h'.row, le_rfl, fun m hm below => h'.stored m hm (below.trans_le h'.resume), ?_⟩
      rw [h'.settled, between_empty le_rfl]
      rfl
    have pass := resumed_pass own same at_cursor ends' rest
    rw [(started_run lasting orderly trivial idle pass after).2.2 after_done]
    have from_one : 1 ≤ (cursor.saturatingAdd 1).val := by
      rw [U32.val_saturatingAdd]
      exact le_min (Nat.le_add_left 1 _) (by decide)
    exact iff_of_true (written_resumed from_one h.resume high (even cursor h.row e e' ends ends'))
      (h.replaces low high ends)

/-- Where the server tells UIDNEXT, every scan ends there. -/
private theorem resumesEvenly_of_uidNext {uidNext : U32} (h : M.uidNext = some uidNext) (w : World) :
    M.ResumesEvenly w := by
  intro cursor _ e e' ends ends' m _
  have upper : M.mailbox.upper = some (uidNext.saturatingSub 1) := by
    rw [Mailbox.upper, mailbox, h]
    rfl
  rw [upper] at ends ends'
  rw [ends.known, ends'.known]

end
end Mirror

/-- An inbox recorded under UIDVALIDITY 4 with one letter, which the server has under 5 and empty. -/
def ledInbox : World where
  db := { (inboxWorld (some 4) 9).db with
    messages := ⟨[letter.toRow 1 1], by simp⟩
    locations := ⟨[{
      id := 1
      version := 1
      messageId := 1
      folderId := 7
      uid := 3
      uidvalidity := 4
      flags := mapFlags []
      internalDate := 0 }], by simp⟩ }
  raw _ _ := none
  attachments _ _ := none
  status _ := initialStatus
  log := []

def bareMirror : Mirror where
  computeHash := firstByte
  parseEml _ _ := .ok plainMail
  accountId := 1
  folderId := 7
  uidvalidity := 5
  uidNext := some 1
  mails := []
  ascending := ⟨.nil, fun _ h => by cases h⟩
  blobs _ _ := none

def bareRun (w : World) (row : Folder) (operations : Nat) : Config (backend firstByte) Party (Except Error Unit) :=
  (List.replicate operations Party.sync).foldl (fun c i => c.advance (calm bareMirror.mailbox (fun _ _ => []) 9) i)
    (bareMirror.started w row 1)

def afterRestart (s : World) : World :=
  { s with db := s.db.updateJobs (·.status = .running) (·.reset) Job.reset_id }

private theorem bareRun_reached {w : World} {row : Folder} {operations : Nat}
    (permits : bareMirror.system.Permits (fun _ => calm bareMirror.mailbox (fun _ _ => []) 9) (bareMirror.started w row 1)
      (List.replicate operations .sync)) : bareMirror.system.Reaches (bareMirror.started w row 1)
        (bareRun w row operations) :=
  permits.reaches

private theorem ledInbox_rollsOver : bareMirror.RollsOver (inbox (some 4) 9) ledInbox where
  constrained := by
    refine ⟨?_, ?_, ?_, ?_⟩
    · intro m hm m' hm' _ _
      rw [List.mem_singleton.mp hm, List.mem_singleton.mp hm']
    · intro l hl l' hl' _ _
      rw [List.mem_singleton.mp hl, List.mem_singleton.mp hl']
    · intro l hl
      rw [List.mem_singleton.mp hl]
      exact ⟨_, List.mem_singleton.mpr rfl, rfl⟩
    · intro m hm
      rw [List.mem_singleton.mp hm]
      decide
  known := ⟨⟨Nat.one_ne_zero, _, List.mem_singleton.mpr rfl, rfl⟩, Nat.succ_ne_zero 6, _, List.mem_singleton.mpr rfl, rfl⟩
  fresh := fun _ hj => by cases hj
  blobs := rfl
  drained := fun _ hj => by cases hj
  mem := List.mem_singleton.mpr rfl
  own := rfl
  turned := rfl

private theorem whole_run : bareMirror.system.Reaches (bareMirror.started ledInbox (inbox (some 4) 9) 1)
    (bareRun ledInbox (inbox (some 4) 9) 8) :=
  bareRun_reached ⟨rfl, trivial, trivial, trivial, trivial, trivial, trivial, trivial, trivial⟩

/-- After a crash right before the reset the next pass sees the rollover too. -/
theorem rollover_crashSafe_beforeReset :
    (bareRun (afterRestart (bareRun ledInbox (inbox (some 4) 9) 3).state) (inbox (some 4) 9) 8).state.db.shown 7 =
      (bareRun ledInbox (inbox (some 4) 9) 8).state.db.shown 7 := by
  have cut : bareMirror.system.Reaches _ (bareRun ledInbox (inbox (some 4) 9) 3) :=
    bareRun_reached ⟨rfl, trivial, trivial, trivial⟩
  have again : bareMirror.system.Reaches _ (bareRun (afterRestart (bareRun ledInbox (inbox (some 4) 9) 3).state) (inbox (some 4) 9) 8) :=
    bareRun_reached ⟨rfl, trivial, trivial, trivial, trivial, trivial, trivial, trivial, trivial⟩
  refine (Mirror.rollover_crashSafe_iff ledInbox_rollsOver cut ⟨_, rfl, rfl, rfl⟩ (List.mem_singleton.mpr rfl) rfl again
    ⟨rfl, fun _ hj => by cases hj⟩ whole_run ⟨rfl, fun _ hj => by cases hj⟩
      (Mirror.resumesEvenly_of_uidNext rfl _)).mpr ?_
  rintro cursor ⟨row, hrow, -, recorded, -⟩
  cases List.mem_singleton.mp hrow
  cases recorded

/-- The crash comes between the reset and the drop: the row has the server's UIDVALIDITY, the next pass sees no rollover,
and the location from before stays. -/
theorem rollover_leaves_stale :
    ¬ ∀ (M : Mirror) (row row' : Folder) (w s : World) (turns turns' turns'' : Nat)
      (crashed resumed whole : Config (backend M.computeHash) Party (Except Error Unit)),
      M.RollsOver row w → M.system.Reaches (M.started w row turns) crashed → Restarted crashed.state s →
      row' ∈ s.db.folders → row'.id = M.folderId → M.system.Reaches (M.started s row' turns') resumed →
        M.Completed resumed →
      M.system.Reaches (M.started w row turns'') whole → M.Completed whole →
      resumed.state.db.shown M.folderId = whole.state.db.shown M.folderId := by
  intro h
  let row' := (inbox (some 4) 9).synced 5 0 0
  let resumed := bareRun (afterRestart (bareRun ledInbox (inbox (some 4) 9) 4).state) row' 5
  have cut : bareMirror.system.Reaches _ (bareRun ledInbox (inbox (some 4) 9) 4) :=
    bareRun_reached ⟨rfl, trivial, trivial, trivial, trivial⟩
  have again : bareMirror.system.Reaches _ resumed := bareRun_reached
    ⟨rfl, trivial, trivial, trivial, trivial, trivial⟩
  have same := h bareMirror (inbox (some 4) 9) row' ledInbox _ 1 1 1 _ resumed _ ledInbox_rollsOver cut
    ⟨_, rfl, rfl, rfl⟩
    (List.mem_singleton.mpr rfl) rfl again ⟨rfl, fun _ hj => by cases hj⟩ whole_run ⟨rfl, fun _ hj => by cases hj⟩
  change resumed.state.db.shown 7 = _ at same
  have stays : (⟨1, firstByte [7], 3, 4, mapFlags [], 0⟩ : LocationEntry) ∈ resumed.state.db.shown 7 :=
    ⟨_, List.mem_singleton.mpr rfl, rfl, _, List.mem_singleton.mpr rfl, rfl, rfl⟩
  rw [same] at stays
  obtain ⟨l, hl, -⟩ := stays
  cases hl

end MailKeep
