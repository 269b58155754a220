import MailKeep.Imap.Coverage
import MailKeep.Imap.ScanView
import MailKeep.Imap.TaskRules

/-! Where the passes of a task only move the cursor of a folder forward. -/
namespace MailKeep
open Program Backend

def IngestedSince (folderId : FolderId) (uid : U32) : List Event → Prop
  | [] => False
  | .selected _ _ _ :: _ => False
  | .ingested payload :: log => payload.folderId = folderId ∧ payload.uid = uid ∨ IngestedSince folderId uid log
  | _ :: log => IngestedSince folderId uid log

def Completed (folderId : FolderId) (uid : U32) : List Event → Prop
  | [] => False
  | .passed folder :: log => folder.id = folderId ∧ IngestedSince folderId uid log ∨ Completed folderId uid log
  | _ :: log => Completed folderId uid log

/-- No UID that a completed pass ingested is ingested again. -/
def NeverAgain (log : List Event) : Prop :=
  Always (fun e earlier => ∀ payload, e = .ingested payload → ¬ Completed payload.folderId payload.uid earlier) log

def Forward (before after : Keyed.Table Folder.id) : Prop :=
  ∀ f ∈ before, ∃ f' ∈ after, f'.id = f.id ∧ f.lastUid ≤ f'.lastUid

/-- The server keeps the UIDVALIDITY of each folder and answers a FETCH with UIDs of its range. -/
def steady {computeHash : Bytes → ContentHash} (uidvalidity : FolderId → U32) : (backend computeHash).Allowed
  | _, .select folder, .ok mailbox => mailbox.uidValidity = some (uidvalidity folder.id)
  | _, .uidFetch _ _ a b, .ok items =>
    ∀ uid body date flags, .ok ⟨some uid, some body, date, flags⟩ ∈ items → InRange a b uid
  | _, _, _ => True

/-- A pass from a captured copy does not start behind the row, and without UIDNEXT it starts below the last UID. -/
def startsAhead {computeHash : Bytes → ContentHash} (task : SyncTask) : (backend computeHash).Allowed
  | s, .select folder, .ok mailbox =>
    (task.Captured s.log → ∀ f ∈ s.db.folders, f.id = folder.id → f.lastUid ≤ folder.lastUid) ∧
      (mailbox.uidNext = none → folder.lastUid < U32.maxValue)
  | _, _, _ => True

section Walk
variable {computeHash : Bytes → ContentHash} {uidvalidity : FolderId → U32} {task : SyncTask}
    {accountId : AccountId}
  {cfg : FolderConfig}

/-- The row of a folder has passed each UID that a completed pass of it ingested. -/
structure Behind (v : SyncView) : Prop where
  again : NeverAgain v.log
  passed : ∀ folderId uid, Completed folderId uid v.log → ∃ f ∈ v.folders, f.id = folderId ∧ uid ≤ f.lastUid

/-- In a pass from the cursor `c` with the high-water mark `h`. -/
structure Ahead (cfg : FolderConfig) (h : U32) (v : SyncView) : Prop where
  row : ∀ f ∈ v.folders, f.id = cfg.id → f.lastUid ≤ h
  completed : ∀ uid, Completed cfg.id uid v.log → uid ≤ cfg.lastUid
  here : ∀ uid, IngestedSince cfg.id uid v.log → uid ≤ h

/-- The copy has not seen another UIDVALIDITY, and it is a captured one or not behind the row. -/
structure Fits (uidvalidity : FolderId → U32) (task : SyncTask) (cfg : FolderConfig) (v : SyncView) : Prop where
  known : ∀ u, cfg.uidvalidity = some u → u = uidvalidity cfg.id
  row : task.Captured v.log ∨ ∀ f ∈ v.folders, f.id = cfg.id → f.lastUid ≤ cfg.lastUid

abbrev aheadContract (computeHash : Bytes → ContentHash) (uidvalidity : FolderId → U32) (task : SyncTask) :
    Contract (backend computeHash) :=
  viewContract (fun s o c => steady uidvalidity s o c ∧ startsAhead task s o c) Behind
    fun v v' => Forward v.folders v'.folders

theorem Forward.refl (t : Keyed.Table Folder.id) : Forward t t := fun f hf => ⟨f, hf, rfl, le_refl _⟩

theorem Forward.trans {a b c : Keyed.Table Folder.id} (h : Forward a b) (h' : Forward b c) : Forward a c := by
  intro f hf
  obtain ⟨g, hg, hid, hle⟩ := h f hf
  obtain ⟨k, hk, hid', hle'⟩ := h' g hg
  exact ⟨k, hk, hid'.trans hid, hle.trans hle'⟩

theorem Forward.persist {v : SyncView} {u h : U32} {now : DateTimeUtc}
    (row : ∀ f ∈ v.folders, f.id = cfg.id → f.lastUid ≤ h) :
    Forward v.folders (v.persist cfg.id u h now).folders := by
  intro f hf
  by_cases hid : f.id = cfg.id
  · exact ⟨f.synced u h now, SyncView.mem_persist.mpr ⟨f, hf, by rw [if_pos hid]⟩, rfl, row f hf hid⟩
  · exact ⟨f, SyncView.mem_persist.mpr ⟨f, hf, by rw [if_neg hid]⟩, rfl, le_refl _⟩

/-- The row moves on to the high-water mark. -/
theorem Behind.persist {v : SyncView} {h : U32} {now : DateTimeUtc} (hb : Behind v) (ha : Ahead cfg h v) (u : U32) :
    Behind (v.persist cfg.id u h now) ∧ Ahead cfg h (v.persist cfg.id u h now) := by
  refine ⟨⟨hb.again.push fun _ he => (by cases he), fun folderId uid hc => ?_⟩, ?_, ha.completed, ha.here⟩
  · obtain ⟨f, hf, hid, hle⟩ := hb.passed folderId uid hc
    obtain ⟨f', hf', hid', hle'⟩ := @Forward.persist cfg v u h now ha.row f hf
    exact ⟨f', hf', hid'.trans hid, hle.trans hle'⟩
  · intro f hf hid
    obtain ⟨g, hg, rfl⟩ := SyncView.mem_persist.mp hf
    by_cases hgid : g.id = cfg.id
    · rw [if_pos hgid]
      exact le_refl _
    · rw [if_neg hgid] at hid
      exact absurd hid hgid

private theorem ahead_scanRule {mailbox : Mailbox} (hmax : mailbox.uidNext = none → cfg.lastUid < U32.maxValue) :
    ScanRule (fun s o c => steady uidvalidity s o c ∧ startsAhead task s o c : (backend computeHash).Allowed) Behind
      (fun v v' => Forward v.folders v'.folders) cfg mailbox (uidvalidity cfg.id) cfg.lastUid (cfg.lastUid < ·)
      (Ahead cfg) where
  refl := fun v => .refl v.folders
  fetched := fun h v a b hb ha => ⟨⟨hb.again.push fun _ he => (by cases he), hb.passed⟩, .refl _, ha.row, ha.completed, ha.here⟩
  ingested := by
    intro h v payload hb ha hid _ hsent
    refine ⟨⟨hb.again.push ?_, hb.passed⟩, .refl _, ?_, ha.completed, ?_⟩
    · rintro _ ⟨⟩ hc
      exact absurd (ha.completed _ (hid ▸ hc)) (not_le.mpr hsent)
    · exact fun f hf hfid => (ha.row f hf hfid).trans (le_max_left ..)
    · rintro uid (⟨-, rfl⟩ | hi)
      · exact le_max_right ..
      · exact (ha.here uid hi).trans (le_max_left ..)
  persisted := fun h v now hb ha _ => ⟨(hb.persist ha _).1, .persist ha.row, (hb.persist ha _).2⟩
  sent := by
    rintro s a b items hrange ⟨hs, -⟩ uid body date flags hm
    obtain ⟨hlt, hle⟩ := hrange hmax
    have := (hs uid body date flags hm).1
    rw [min_eq_left hle] at this
    exact lt_of_lt_of_le hlt this

private theorem syncFolder_ahead {s : World} (hb : Behind s.view) (hf : Fits uidvalidity task cfg s.view) :
    SafeAct (aheadContract computeHash uidvalidity task)
      (fun r t => r.2 = uidvalidity cfg.id ∧ Ahead cfg r.1 t.view ∧ t.view.Synced cfg.id (uidvalidity cfg.id) r.1)
      (fun _ _ => True) (syncFolder accountId cfg) s := by
  refine SafeAct.seq viewContract_stable (selectFolder_view (fun v => .refl v.folders)
    (fun mailbox v => Ahead cfg cfg.lastUid v ∧ mailbox.uidValidity = some (uidvalidity cfg.id) ∧
      (mailbox.uidNext = none → cfg.lastUid < U32.maxValue)) (fun _ _ => True) hb (fun _ => trivial) ?_)
    fun mailbox t ht hsel => ?_
  · rintro mailbox ⟨hs, hahead, hmax⟩
    have hrow : ∀ f ∈ s.view.folders, f.id = cfg.id → f.lastUid ≤ cfg.lastUid := hf.row.elim hahead id
    refine ⟨⟨hb.again.push fun _ he => (by cases he), hb.passed⟩, .refl _, ⟨hrow, fun uid hc => ?_, fun _ h => h.elim⟩, hs, hmax⟩
    obtain ⟨f, hf, hid, hle⟩ := hb.passed cfg.id uid hc
    exact hle.trans (hrow f hf hid)
  · obtain ⟨ha, hu, hmax⟩ := hsel
    unfold serverUidvalidity
    rw [hu]
    change SafeAct _ _ _ (checkUidvalidity cfg (uidvalidity cfg.id) >>= _) t
    have hr : ¬ cfg.rolledOver (uidvalidity cfg.id) = true := by
      rw [FolderConfig.rolledOver, Option.any_eq_true]
      rintro ⟨u, hcu, hne⟩
      exact absurd (hf.known u hcu) (by simpa using hne)
    have check : SafeAct (aheadContract computeHash uidvalidity task)
      (fun c t => c = cfg.lastUid ∧ Ahead cfg cfg.lastUid t.view)
        (fun _ _ => True) (checkUidvalidity cfg (uidvalidity cfg.id)) t := by
      unfold checkUidvalidity
      rw [if_neg hr]
      refine SafeAct.seq viewContract_stable (note_view (Ahead cfg cfg.lastUid) (fun _ _ => True)
        ⟨ht.again.push fun _ he => (by cases he), ht.passed⟩ (.refl _) ⟨ha.row, ha.completed, ha.here⟩)
          fun _ u _ hau => ?_
      exact SafeAct.pure fun v _ hrv => hrv ▸ ⟨rfl, hau⟩
    apply SafeAct.seq viewContract_stable check
    intro c u hbu hau
    obtain ⟨rfl, hau⟩ := hau
    apply Safe.weaken (syncFrom_scanned (ahead_scanRule hmax) hbu hau)
    intro r v _ h
    cases r with
    | ok r => exact h
    | error e => trivial

private theorem ahead_passRule (copies : ∀ cfg ∈ task.folders, ∀ u, cfg.uidvalidity = some u → u = uidvalidity cfg.id) :
    PassRule (fun s o c => steady uidvalidity s o c ∧ startsAhead task s o c : (backend computeHash).Allowed) Behind
      (fun v v' => Forward v.folders v'.folders) accountId task (fun _ => True) (Fits uidvalidity task) where
  refl := fun v => .refl v.folders
  trans := Forward.trans
  pass := fun cfg s hb _ hf => by
    apply Safe.weaken (syncFolder_ahead hb hf)
    intro r t hbt h
    cases r with
    | error e => trivial
    | ok r =>
      obtain ⟨huv, ha, f, hf, hid, -, hlast⟩ := h
      refine ⟨⟨hbt.again.push fun _ he => (by cases he), ?_⟩, .refl _, trivial, fun u hu => ?_, .inr ha.row⟩
      · rintro folderId uid (⟨rfl, hi⟩ | hc)
        · exact ⟨f, hf, hid, hlast ▸ ha.here uid hi⟩
        · exact hbt.passed folderId uid hc
      · cases hu
        exact huv
  connected := fun v hb _ => ⟨⟨hb.again.push fun _ he => (by cases he), hb.passed⟩, .refl _, trivial⟩
  ready := fun cfg hm _ _ _ hc => ⟨copies cfg hm, .inl hc⟩

end Walk

/-- In every run of a task over folders whose UIDVALIDITY stays, cut off anywhere: where each pass from a
captured copy starts ahead, no row goes back and no UID of a completed pass is ingested again. -/
theorem cursor_forward {computeHash : Bytes → ContentHash} {uidvalidity : FolderId → U32} {task : SyncTask}
    {accountId : AccountId} {w : World} {x y : BackendProg (Option task.State) × World}
    (copies : ∀ cfg ∈ task.folders, ∀ u, cfg.uidvalidity = some u → u = uidvalidity cfg.id)
    (toX : LoopReaches (fun s o c => steady uidvalidity s o c ∧ startsAhead task s o c : (backend computeHash).Allowed)
      (task.round accountId) (task.round accountId task.start, w.atStart) x)
    (toY : LoopReaches (fun s o c => steady uidvalidity s o c ∧ startsAhead task s o c : (backend computeHash).Allowed)
      (task.round accountId) x y) :
    Forward x.2.db.folders y.2.db.folders ∧ NeverAgain y.2.log := by
  have start : Behind w.atStart.view := ⟨always_nil, fun _ _ h => h.elim⟩
  have rule := @ahead_passRule computeHash uidvalidity task accountId copies
  exact ⟨(rule.reaches start trivial toX).2 y toY, (rule.reaches start trivial (toX.trans toY)).1.again⟩

def newMailRound (task : SyncTask) (st : task.State) (w : World) : BackendProg (Option task.State) × World :=
  (backend firstByte).follow (calm ⟨some 5, some 2⟩ (oneMailAnswers 1) 1) 40 (task.round 1 st, w)

private theorem calm_steady (s : World) (o : BackendOp) :
    (steady fun _ => 5 : (backend firstByte).Allowed) s o (calm ⟨some 5, some 2⟩ (oneMailAnswers 1) 1 o) := by
  cases o with
  | select folder => rfl
  | uidFetch folder mailbox a b =>
    intro uid body date flags h
    rw [oneMailAnswers] at h
    split at h
    · rename_i hr
      cases List.mem_singleton.mp h
      exact hr
    · cases h
  | _ => trivial

def newMailPoll : SyncTask := .poll [folderConfig (inbox none 0)] 60

def newMailPolled : World := (newMailRound newMailPoll newMailPoll.start (inboxWorld none 0).atStart).2

private theorem newMailPoll_runs : LoopReaches (steady fun _ => 5 : (backend firstByte).Allowed) (newMailPoll.round 1)
    (newMailPoll.round 1 newMailPoll.start, (inboxWorld none 0).atStart)
    (newMailRound newMailPoll newMailPoll.start newMailPolled) := by
  have first : LoopReaches (steady fun _ => 5 : (backend firstByte).Allowed) (newMailPoll.round 1)
      (newMailPoll.round 1 newMailPoll.start, (inboxWorld none 0).atStart)
      (newMailRound newMailPoll newMailPoll.start (inboxWorld none 0).atStart) :=
    (reaches_follow calm_steady 40 _).loop
  have hret : newMailRound newMailPoll newMailPoll.start (inboxWorld none 0).atStart =
      (.ret (some newMailPoll.start), newMailPolled) := rfl
  rw [hret] at first
  exact (first.tail (.again _ _)).trans (reaches_follow calm_steady 40 _).loop

theorem poll_ingests_again : ¬ ∀ (uidvalidity : FolderId → U32) (task : SyncTask)
    (accountId : AccountId) (w : World)
    (x y : BackendProg (Option task.State) × World),
    (∀ cfg ∈ task.folders, ∀ u, cfg.uidvalidity = some u → u = uidvalidity cfg.id) →
    LoopReaches (steady uidvalidity : (backend firstByte).Allowed) (task.round accountId)
      (task.round accountId task.start, w.atStart) x →
    LoopReaches (steady uidvalidity : (backend firstByte).Allowed) (task.round accountId) x y →
    Forward x.2.db.folders y.2.db.folders ∧ NeverAgain y.2.log := by
  intro h
  obtain ⟨-, hn⟩ := h _ _ _ _ _ _ (by rintro cfg hm u hu; cases List.mem_singleton.mp hm; cases hu) .refl newMailPoll_runs
  have hlog : (newMailRound newMailPoll newMailPoll.start newMailPolled).2.log =
      (newMailRound newMailPoll newMailPoll.start newMailPolled).2.log.take 2 ++
        .ingested ⟨1, 7, 1, 5, firstByte [1], 0, mapFlags []⟩ ::
          (newMailRound newMailPoll newMailPoll.start newMailPolled).2.log.drop 3 := rfl
  exact hn _ _ _ hlog _ rfl (Or.inl ⟨rfl, Or.inl ⟨rfl, rfl⟩⟩)

def newMailIdle : SyncTask := .idle (folderConfig (inbox none 0))

def newMailConnected : World := (newMailRound newMailIdle newMailIdle.start (inboxWorld none 0).atStart).2

def newMailArrived : World := (newMailRound newMailIdle ⟨0, some (folderConfig (inbox none 0))⟩ newMailConnected).2

private theorem newMailIdle_round {st : newMailIdle.State} {st' : Option newMailIdle.State} {w w' : World}
    (h : newMailRound newMailIdle st w = (.ret st', w'))
    (ok : (backend firstByte).Follows (startsAhead newMailIdle) (calm ⟨some 5, some 2⟩ (oneMailAnswers 1) 1) 40
      (newMailIdle.round 1 st, w)) :
    LoopReaches (fun s o c => steady (fun _ => 5) s o c ∧ startsAhead newMailIdle s o c : (backend firstByte).Allowed)
      (newMailIdle.round 1) (newMailIdle.round 1 st, w) (.ret st', w') := by
  rw [← h]
  exact (ok.imp fun s o ha => ⟨calm_steady s o, ha⟩).reaches.loop

private theorem newMailIdle_arrives : LoopReaches
    (fun s o c => steady (fun _ => 5) s o c ∧ startsAhead newMailIdle s o c : (backend firstByte).Allowed)
    (newMailIdle.round 1) (newMailIdle.round 1 newMailIdle.start, (inboxWorld none 0).atStart)
    (.ret (some ⟨0, some ((folderConfig (inbox none 0)).advanced (1, 5))⟩), newMailArrived) := by
  have connect := @newMailIdle_round newMailIdle.start (some ⟨0, some (folderConfig (inbox none 0))⟩)
    (inboxWorld none 0).atStart newMailConnected rfl (by repeat' refine And.intro trivial ?_; trivial)
  have pass := @newMailIdle_round ⟨0, some (folderConfig (inbox none 0))⟩
    (some ⟨0, some ((folderConfig (inbox none 0)).advanced (1, 5))⟩) newMailConnected newMailArrived rfl (by
      refine And.intro trivial (And.intro ⟨fun _ f hf _ => ?_, fun h => by cases h⟩ ?_)
      · cases List.mem_singleton.mp hf
        exact le_refl _
      · repeat' refine And.intro trivial ?_
        trivial)
  exact (connect.tail (.again _ _)).trans pass

private theorem newMailIdle_parks : LoopReaches
    (fun s o c => steady (fun _ => 5) s o c ∧ startsAhead newMailIdle s o c : (backend firstByte).Allowed)
    (newMailIdle.round 1) (.ret (some ⟨0, some ((folderConfig (inbox none 0)).advanced (1, 5))⟩), newMailArrived)
    (newMailRound newMailIdle ⟨0, some ((folderConfig (inbox none 0)).advanced (1, 5))⟩ newMailArrived) := by
  have pass := @newMailIdle_round ⟨0, some ((folderConfig (inbox none 0)).advanced (1, 5))⟩ _ newMailArrived _ rfl (by
      refine And.intro trivial (And.intro ⟨fun h => (by cases h), fun h => by cases h⟩ ?_)
      repeat' refine And.intro trivial ?_
      trivial)
  exact .head (.again _ _) pass

theorem cursor_forward_newMail :
    Forward newMailArrived.db.folders
        (newMailRound newMailIdle ⟨0, some ((folderConfig (inbox none 0)).advanced (1, 5))⟩ newMailArrived).2.db.folders ∧
      NeverAgain (newMailRound newMailIdle ⟨0, some ((folderConfig (inbox none 0)).advanced (1, 5))⟩ newMailArrived).2.log :=
  cursor_forward (by rintro cfg hm u hu; cases List.mem_singleton.mp hm; cases hu) newMailIdle_arrives newMailIdle_parks

end MailKeep
