import MailKeep.Imap.ScanView
import MailKeep.Imap.TaskRules
import MailKeep.Program.Trace

/-! When the tasks handle a UIDVALIDITY rollover: the check reads the task's copy of the folder, not the row. -/
namespace MailKeep
open Program Backend

/-- Whatever the server, the store, the clock and the user do. -/
def anything {computeHash : Bytes → ContentHash} : (backend computeHash).Allowed := fun _ _ _ => True

/-- In each pass that came past its SELECT, the rollover handling was entered just where the row
held another UIDVALIDITY than the server reported. -/
def Detected (log : List Event) : Prop :=
  Always (fun e earlier => ∀ folder mailbox recorded rest uidvalidity,
    earlier = .selected folder mailbox recorded :: rest → mailbox.uidValidity = some uidvalidity →
    (e = .rollover folder.id uidvalidity ↔ ∃ known, recorded = some known ∧ known ≠ uidvalidity)) log

/-- In each such pass that worked from the copy captured at the start of the task, the copy and the
row gave the same verdict. -/
def CopiesAgree (task : SyncTask) (log : List Event) : Prop :=
  Always (fun _ earlier => ∀ folder mailbox recorded rest uidvalidity,
    earlier = .selected folder mailbox recorded :: rest → mailbox.uidValidity = some uidvalidity →
    task.Captured rest →
    (folder.rolledOver uidvalidity = true ↔ ∃ known, recorded = some known ∧ known ≠ uidvalidity)) log

private theorem FolderConfig.rolledOver_iff (folder : FolderConfig) (uidvalidity : U32) :
    folder.rolledOver uidvalidity = true ↔ ∃ known, folder.uidvalidity = some known ∧ known ≠ uidvalidity := by
  simp [rolledOver, Option.any_eq_true]

def Settled (log : List Event) : Prop :=
  ∀ folder mailbox recorded rest, log = .selected folder mailbox recorded :: rest → mailbox.uidValidity = none

/-- The verdict of each pass is that of its copy, and a copy other than a captured one agrees with the row. -/
structure Faithful (task : SyncTask) (log : List Event) : Prop where
  decided : Always (fun e earlier => ∀ folder mailbox recorded rest uidvalidity,
    earlier = .selected folder mailbox recorded :: rest → mailbox.uidValidity = some uidvalidity →
    (e = .rollover folder.id uidvalidity ↔ folder.rolledOver uidvalidity = true)) log
  copies : Always (fun e earlier => ∀ folder mailbox recorded, e = .selected folder mailbox recorded →
    task.Captured earlier ∨ recorded = folder.uidvalidity) log

/-- What the history says of a pass that has come as far as its verdict. -/
private theorem Faithful.detected_iff {task : SyncTask} {log : List Event} (h : Faithful task log) :
    Detected log ↔ CopiesAgree task log := by
  have row : ∀ later e folder mailbox recorded rest,
      log = later ++ e :: .selected folder mailbox recorded :: rest →
      task.Captured rest ∨ recorded = folder.uidvalidity := by
    intro later e folder mailbox recorded rest hl
    exact h.copies (later ++ [e]) _ rest (by rw [hl]; simp) folder mailbox recorded rfl
  constructor
  · intro hd later e earlier hl folder mailbox recorded rest uidvalidity he hv _
    rw [← h.decided later e earlier hl folder mailbox recorded rest uidvalidity he hv]
    exact hd later e earlier hl folder mailbox recorded rest uidvalidity he hv
  · intro ha later e earlier hl folder mailbox recorded rest uidvalidity he hv
    rw [h.decided later e earlier hl folder mailbox recorded rest uidvalidity he hv]
    rcases row later e folder mailbox recorded rest (he ▸ hl) with hc | rfl
    · exact ha later e earlier hl folder mailbox recorded rest uidvalidity he hv hc
    · exact folder.rolledOver_iff uidvalidity

section Walk
variable {computeHash : Bytes → ContentHash} {task : SyncTask} {accountId : AccountId} {cfg : FolderConfig}

theorem Settled.cons {log : List Event} {e : Event} (he : ∀ folder mailbox recorded, e ≠ .selected folder mailbox recorded) :
    Settled (e :: log) := by
  rintro folder mailbox recorded rest ⟨⟩
  exact absurd rfl (he folder mailbox recorded)

theorem Faithful.push {log : List Event} {e : Event} (h : Faithful task log) (hs : Settled log)
    (he : ∀ folder mailbox recorded, e ≠ .selected folder mailbox recorded) : Faithful task (e :: log) where
  decided := h.decided.push fun folder mailbox recorded rest uidvalidity hl hv => by
    rw [hs folder mailbox recorded rest hl] at hv
    cases hv
  copies := h.copies.push fun folder mailbox recorded hl => absurd hl (he folder mailbox recorded)

/-- The copy is one of the captured ones, or it agrees with the row. -/
def Current (task : SyncTask) (cfg : FolderConfig) (v : SyncView) : Prop :=
  task.Captured v.log ∨ recordedUidvalidity v.folders cfg.id = cfg.uidvalidity

theorem Faithful.select {v : SyncView} {mailbox : Mailbox} (h : Faithful task v.log) (hs : Settled v.log)
    (hc : Current task cfg v) :
    Faithful task (.selected cfg mailbox (recordedUidvalidity v.folders cfg.id) :: v.log) where
  decided := h.decided.push fun folder mailbox recorded rest uidvalidity hl hv => by
    rw [hs folder mailbox recorded rest hl] at hv
    cases hv
  copies := h.copies.push fun folder mailbox recorded hl => by
    cases hl
    exact hc

/-- The verdict of the copy goes into the history right after its SELECT. -/
private theorem Faithful.verdict {log : List Event} {mailbox : Mailbox} {recorded : Option U32} {rest : List Event}
    {uidvalidity : U32} {e : Event} (h : Faithful task log) (hl : log = .selected cfg mailbox recorded :: rest)
    (hv : mailbox.uidValidity = some uidvalidity)
    (he : e = .rollover cfg.id uidvalidity ↔ cfg.rolledOver uidvalidity = true)
    (hne : ∀ folder mailbox recorded, e ≠ .selected folder mailbox recorded) : Faithful task (e :: log) where
  decided := h.decided.push fun folder mailbox' recorded' rest' uidvalidity' hl' hv' => by
    rw [hl] at hl'
    cases hl'
    rw [hv] at hv'
    cases hv'
    exact he
  copies := h.copies.push fun folder mailbox recorded hl => absurd hl (hne folder mailbox recorded)

abbrev faithfulContract (computeHash : Bytes → ContentHash) (task : SyncTask) : Contract (backend computeHash) :=
  viewContract anything (fun v => Faithful task v.log) AnyStep

private theorem checkUidvalidity_settled {s : World} {mailbox : Mailbox} {uidvalidity : U32} {recorded : Option U32}
    {rest : List Event} (hv : Faithful task s.view.log) (hl : s.view.log = .selected cfg mailbox recorded :: rest)
    (hu : mailbox.uidValidity = some uidvalidity) :
    SafeAct (faithfulContract computeHash task) (fun _ t => Settled t.view.log) (fun _ t => Settled t.view.log)
      (checkUidvalidity cfg uidvalidity) s := by
  unfold checkUidvalidity
  split
  · rename_i hr
    have h1 : Faithful task (.rollover cfg.id uidvalidity :: s.view.log) :=
      hv.verdict hl hu (by simp [hr]) fun _ _ _ => by simp
    refine SafeAct.seq viewContract_stable (handleUidvalidityChange_view AnyStep.refl
      (fun v => Settled v.log) (fun _ v => Settled v.log) ?_ fun now _ => ?_) fun _ t _ ht =>
      SafeAct.pure fun u _ hr => hr ▸ ht
    · exact ⟨h1, trivial, fun _ => .cons fun _ _ _ => by simp⟩
    · have h2 : Faithful task (.persisted cfg.id uidvalidity 0 :: .rollover cfg.id uidvalidity :: s.view.log) :=
        h1.push (.cons fun _ _ _ => by simp) fun _ _ _ => by simp
      have h3 : Faithful task (.dropped cfg.id :: .persisted cfg.id uidvalidity 0 :: .rollover cfg.id uidvalidity ::
          s.view.log) := h2.push (.cons fun _ _ _ => by simp) fun _ _ _ => by simp
      exact ⟨h2, trivial, fun _ => .cons fun _ _ _ => by simp, h3, trivial, .cons fun _ _ _ => by simp⟩
  · rename_i hr
    have h1 : Faithful task (.unchanged cfg.id uidvalidity :: s.view.log) :=
      hv.verdict hl hu (by simp [hr]) fun _ _ _ => by simp
    exact SafeAct.seq viewContract_stable (note_view (fun v => Settled v.log) (fun _ v => Settled v.log) h1 trivial
      (.cons fun _ _ _ => by simp)) fun _ t _ ht => SafeAct.pure fun u _ hr => hr ▸ ht

/-- From the verdict on a pass writes no other one. -/
private theorem faithful_scanRule {mailbox : Mailbox} {uidvalidity c : U32} :
    ScanRule (anything : (backend computeHash).Allowed)
      (fun v => Faithful task v.log) AnyStep cfg mailbox uidvalidity c
      (fun _ => True) (fun _ v => Settled v.log) where
  refl := AnyStep.refl
  fetched := fun _ _ _ _ hv hs => ⟨hv.push hs fun _ _ _ => by simp, trivial, .cons fun _ _ _ => by simp⟩
  ingested := fun _ _ _ hv hs _ _ _ => ⟨hv.push hs fun _ _ _ => by simp, trivial, .cons fun _ _ _ => by simp⟩
  persisted := fun _ _ _ hv hs _ => ⟨hv.push hs fun _ _ _ => by simp, trivial, .cons fun _ _ _ => by simp⟩
  sent := fun _ _ _ _ _ _ _ _ _ _ _ => trivial

private theorem syncFolder_faithful {s : World} (hv : Faithful task s.view.log) (hs : Settled s.view.log)
    (hc : Current task cfg s.view) :
    SafeAct (faithfulContract computeHash task)
      (fun r t => Faithful task t.view.log ∧ Settled t.view.log ∧
        recordedUidvalidity t.view.folders cfg.id = some r.2)
      (fun _ t => Settled t.view.log) (syncFolder accountId cfg) s := by
  refine SafeAct.seq viewContract_stable (selectFolder_view AnyStep.refl
    (fun mailbox v => ∃ recorded rest, v.log = .selected cfg mailbox recorded :: rest) (fun _ v => Settled v.log) hv
    (fun _ => hs) fun mailbox _ => ⟨hv.select hs hc, trivial, _, _, rfl⟩) fun mailbox t ht hsel => ?_
  obtain ⟨recorded, rest, hl⟩ := hsel
  unfold serverUidvalidity
  cases hu : mailbox.uidValidity with
  | none =>
    refine SafeAct.throw fun u _ hr => hr ▸ fun folder mailbox' recorded' rest' hl' => ?_
    rw [hl] at hl'
    cases hl'
    exact hu
  | some uidvalidity =>
    change SafeAct _ _ _ (checkUidvalidity cfg uidvalidity >>= _) t
    apply SafeAct.seq viewContract_stable (checkUidvalidity_settled ht hl hu)
    intro c u hvu hsu
    apply Safe.weaken (syncFrom_scanned faithful_scanRule hvu hsu)
    intro r x hx h
    cases r with
    | ok r =>
      obtain ⟨h1, h2, h3⟩ := h
      exact ⟨hx, h2, h1 ▸ h3.recorded⟩
    | error e => exact h.choose_spec

private theorem faithful_passRule : PassRule (anything : (backend computeHash).Allowed)
    (fun v => Faithful task v.log) AnyStep
    accountId task (fun v => Settled v.log) (Current task) where
  refl := AnyStep.refl
  trans := fun _ _ => trivial
  pass := fun cfg s hv hs hc => by
    apply Safe.weaken (syncFolder_faithful hv hs hc)
    intro r t _ h
    cases r with
    | ok r =>
      obtain ⟨h1, h2, h3⟩ := h
      exact ⟨h1.push h2 fun _ _ _ => by simp, trivial, .cons fun _ _ _ => by simp, .inr h3⟩
    | error e => exact h
  connected := fun _ hv hs => ⟨hv.push hs fun _ _ _ => by simp, trivial, .cons fun _ _ _ => by simp⟩
  ready := fun _ _ _ _ _ h => .inl h

end Walk

/-- In every run of a task, whatever the server and the store do, each rollover is detected exactly
when it happens just where the captured copies agree with the row. -/
theorem rollover_detected_iff {computeHash : Bytes → ContentHash} {task : SyncTask}
    {accountId : AccountId} {w : World}
    {y : BackendProg (Option task.State) × World}
    (run : LoopReaches (anything : (backend computeHash).Allowed) (task.round accountId)
      (task.round accountId task.start, w.atStart) y) :
    Detected y.2.log ↔ CopiesAgree task y.2.log := by
  have start : Faithful task w.atStart.view.log := ⟨always_nil, always_nil⟩
  have settled : Settled w.atStart.view.log := fun _ _ _ _ h => by cases h
  exact (faithful_passRule.reaches start settled run).1.detected_iff

/-- A folder recorded with UIDVALIDITY 4 that the server has under 5: the poll task handles it in each pass. -/
def movedTask : SyncTask := .poll [folderConfig (inbox (some 4) 0)] 60

def movedFirst : BackendProg (Option movedTask.State) × World :=
  (backend firstByte).follow (calm ⟨some 5, some 1⟩ (fun _ _ => []) 1) 30
    (movedTask.round 1 movedTask.start, (inboxWorld (some 4) 0).atStart)

def movedSecond : BackendProg (Option movedTask.State) × World :=
  (backend firstByte).follow (calm ⟨some 5, some 1⟩ (fun _ _ => []) 1) 30
    (movedTask.round 1 movedTask.start, movedFirst.2)

private theorem movedTask_runs : LoopReaches (anything : (backend firstByte).Allowed) (movedTask.round 1)
    (movedTask.round 1 movedTask.start, (inboxWorld (some 4) 0).atStart) movedSecond := by
  have first : LoopReaches (anything : (backend firstByte).Allowed) (movedTask.round 1)
      (movedTask.round 1 movedTask.start, (inboxWorld (some 4) 0).atStart) movedFirst :=
    (reaches_follow (fun _ _ => trivial) 30 _).loop
  have hret : movedFirst = (.ret (some movedTask.start), movedFirst.2) := rfl
  rw [hret] at first
  exact (first.tail (.again _ _)).trans (reaches_follow (fun _ _ => trivial) 30 _).loop

theorem rollover_detected_iff_moved : Detected movedSecond.2.log ↔ CopiesAgree movedTask movedSecond.2.log :=
  rollover_detected_iff movedTask_runs

theorem rollover_handled_again : ¬ ∀ (task : SyncTask) (accountId : AccountId) (w : World)
    (y : BackendProg (Option task.State) × World),
    LoopReaches (anything : (backend firstByte).Allowed) (task.round accountId)
      (task.round accountId task.start, w.atStart) y → Detected y.2.log := by
  intro h
  have hd := h _ _ _ _ movedTask_runs
  have hlog : movedSecond.2.log = movedSecond.2.log.take 4 ++ .rollover 7 5 ::
      .selected (folderConfig (inbox (some 4) 0)) ⟨some 5, some 1⟩ (some 5) :: movedSecond.2.log.drop 6 := rfl
  obtain ⟨known, hk, hne⟩ := (hd _ _ _ hlog _ _ _ _ 5 rfl rfl).mp rfl
  cases hk
  exact hne rfl

end MailKeep
