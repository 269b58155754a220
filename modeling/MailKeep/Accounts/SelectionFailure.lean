import MailKeep.Accounts.SelectedFolders

/-! What a selection that fails leaves of the folders' flags. -/
namespace MailKeep
open Program

def Database.folderFlag (db : Database) (folderId : FolderId) :
    Option Bool := (db.folders.find? folderId).map (·.enabled)

/-- Once a first flag has been written, no entry is left that can fail, and no restart. -/
def FailsFirst (tokens : TokenParsers) (db : Database) (userId : UserId) (accountToken : String)
    (folders : List FolderEnabledDto) : Prop :=
  ∀ accountId account, Opens tokens db userId accountToken folders accountId account →
    ∀ pre fe post w, folders = pre ++ fe :: post →
      (∀ x ∈ pre, x.Quiet tokens (enabledById (db.foldersOf accountId))) →
      fe.write? tokens (enabledById (db.foldersOf accountId)) = some w → w.1 ≠ 0 →
        (∀ x ∈ post, x.Quiet tokens (enabledById (db.foldersOf accountId))) ∧ account.enabled = false

section
variable {tokens : TokenParsers} {byId : FolderId → Option Bool} {folders done : List FolderEnabledDto}

/-- Of the entries done, the first that asks for a write. -/
private theorem selectedWrites_cases (all : ∀ fe ∈ done, fe.Done tokens byId) : selectedWrites tokens byId done = [] ∨
    ∃ pre fe post w, done = pre ++ fe :: post ∧ (∀ x ∈ pre, x.Quiet tokens byId) ∧
      fe.write? tokens byId = some w ∧ w.1 ≠ 0 := by
  induction done with
  | nil => exact .inl rfl
  | cons fe done ih =>
    obtain ⟨here, all⟩ := List.forall_mem_cons.mp all
    rcases here with quiet | ⟨w, asked, valid⟩
    · rw [selectedWrites_quiet quiet]
      apply (ih all).imp_right
      rintro ⟨pre, x, post, w, rfl, before, asked⟩
      exact ⟨fe :: pre, x, post, w, rfl, List.forall_mem_cons.mpr ⟨quiet, before⟩, asked⟩
    · exact .inr ⟨[], fe, done, w, rfl, nofun, asked, valid⟩

/-- The folder an entry asks to write. -/
private theorem asked_folder {db : Database} {accountId : AccountId} {fe : FolderEnabledDto} {w : FolderId × Bool}
    (asked : fe.write? tokens (enabledById (db.foldersOf accountId)) = some w) :
    ∃ f ∈ db.folders, f.id = w.1 ∧ f.enabled ≠ w.2 := by
  have chosen : w ∈ selectedWrites tokens (enabledById (db.foldersOf accountId)) [fe] := by
    rw [selectedWrites_write asked]
    exact List.mem_cons_self
  obtain ⟨-, -, -, -, f, mem, -, same, differs⟩ := mem_selectedWrites.mp chosen
  exact ⟨f, mem, same, differs⟩

/-- The first entry that is not quiet. -/
private theorem exists_loud (loud : ¬ ∀ x ∈ folders, x.Quiet tokens byId) :
    ∃ pre fe post, folders = pre ++ fe :: post ∧ (∀ x ∈ pre, x.Quiet tokens byId) ∧ ¬ fe.Quiet tokens byId := by
  induction folders with
  | nil => exact absurd nofun loud
  | cons fe folders ih =>
    by_cases quiet : fe.Quiet tokens byId
    · obtain ⟨pre, x, post, rfl, before, here⟩ := ih fun all => loud (List.forall_mem_cons.mpr ⟨quiet, all⟩)
      exact ⟨fe :: pre, x, post, rfl, List.forall_mem_cons.mpr ⟨quiet, before⟩, here⟩
    · exact ⟨[], fe, folders, rfl, nofun, quiet⟩

variable {ι : Type} [DecidableEq ι] {me : ι} {openCredentials : OpenCredentials}
    {s s' : SyncHost ι} {changed : Bool}

omit [DecidableEq ι] in
private theorem applySelection_quiets {pre : List FolderEnabledDto} (quiet : ∀ x ∈ pre, x.Quiet tokens byId)
    (folders : List FolderEnabledDto) (changed : Bool) :
    (applySelection tokens byId (pre ++ folders) changed : SelectAction ι _ _) =
      applySelection tokens byId folders changed := by
  induction pre with
  | nil => rfl
  | cons fe pre ih =>
    obtain ⟨here, rest⟩ := List.forall_mem_cons.mp quiet
    exact (applySelection_quiet here).trans (ih rest)

/-- A transaction may fail. -/
private theorem transactFolder_fails (s : SyncHost ι) (t : FolderTxn) : ∃ e, Runs (M := selectHost ι) (anyCourse ι)
    (mapErr toServerErr (transactFolder t)).run s (.error e) s :=
  ⟨_, transactFolder_runs.mpr ⟨some (.other ""), rfl, rfl⟩⟩

/-- The loop may fail at an entry that is not quiet, before it writes anything. -/
private theorem applySelection_fails {fe : FolderEnabledDto} (loud : ¬ fe.Quiet tokens byId) (s : SyncHost ι)
    (folders : List FolderEnabledDto) (changed : Bool) :
    ∃ e, Runs (M := selectHost ι) (anyCourse ι) (applySelection tokens byId (fe :: folders) changed).run s (.error e) s := by
  rcases fe.cases tokens byId with ⟨e, unparsed⟩ | quiet | ⟨w, asked⟩
  · rw [applySelection_error unparsed]
    exact ⟨_, .refl⟩
  · exact absurd quiet loud
  · rw [applySelection_write asked]
    obtain ⟨e, failed⟩ := transactFolder_fails s (.setEnabled w.1 w.2)
    exact ⟨e, runs_seq_cases.mpr (.inr ⟨e, rfl, failed⟩)⟩

/-- A restart may fail once the sync has stopped. -/
private theorem restartSync_fails (me : ι) (openCredentials : OpenCredentials) (s : SyncHost ι)
    (accountId : AccountId) : ∃ e s', Runs (M := selectHost ι) (anyCourse ι)
    (restartSync me openCredentials accountId).run s (.error e) s' := by
  have stops : Runs (M := selectHost ι) (anyCourse ι)
      (mapErr toServerErr ((onPort ι).act (stopAccount accountId)) : SelectAction ι _ _).run s (.ok ())
      ((s.untrack accountId).push (.stopped accountId)) := .single (.call () trivial)
  have fails : Runs (M := selectHost ι) (anyCourse ι)
      (mapErr toServerErr ((onPort ι).act (startAccount me openCredentials accountId)) : SelectAction ι _ _).run
      ((s.untrack accountId).push (.stopped accountId))
      (.error (toServerErr (.repositoryError (handleDberr (.other ""))))) ((s.untrack accountId).push (.stopped accountId)) :=
    runs_call.mpr ⟨some (DbErr.other ""), trivial, .refl⟩
  exact ⟨_, _, runs_seq_cases.mpr (.inl ⟨(), _, stops, fails⟩)⟩

variable {userId : UserId} {accountToken : String}

/-- Where nothing can fail after a first write, a request that fails has written nothing. -/
private theorem folders_of_failsFirst (first : FailsFirst tokens s.db userId accountToken folders) {e : ServerFnError}
    (run : Runs (M := selectHost ι) (anyCourse ι)
      (setAccountFoldersEnabled tokens me openCredentials userId accountToken folders).run s (.error e) s') :
    s'.db.folders = s.db.folders := by
  rcases setAccountFoldersEnabled_cases run with ⟨-, -, rfl⟩ | ⟨accountId, account, opens, write⟩
  · rfl
  have late := first accountId account opens
  rcases runs_seq_cases.mp write with ⟨changed, t, loop, restart⟩ | ⟨e, -, failed⟩
  · obtain ⟨done, left, rfl, all, rfl, ⟨rfl, same⟩ | ⟨e, fe, rest, bad, -⟩⟩ := applySelection_runs loop
    · rcases selectedWrites_cases all with none | ⟨pre, fe, post, w, rfl, quiet, asked, valid⟩
      · rw [none] at same
        cases same
        obtain ⟨bad, -⟩ := runs_ret.mp restart
        cases bad
      · obtain ⟨-, disabled⟩ := late pre fe post w (by simp) quiet asked valid
        rw [if_neg (by simp [disabled])] at restart
        obtain ⟨bad, -⟩ := runs_ret.mp restart
        cases bad
    · cases bad
  · obtain ⟨done, left, rfl, all, rfl, ⟨-, bad⟩ | ⟨e, fe', rest, -, rfl, loud⟩⟩ := applySelection_runs failed
    · cases bad
    · rcases selectedWrites_cases all with none | ⟨pre, fe, post, w, rfl, quiet, asked, valid⟩
      · rw [none]
        rfl
      · obtain ⟨calm, -⟩ := late pre fe (post ++ fe' :: rest) w (by simp) quiet asked valid
        exact absurd (calm fe' (by simp)) loud

/-- Where something can fail after a first write, the request can end there. -/
private theorem setAccountFoldersEnabled_late {accountId : AccountId} {account : Account}
    {pre post : List FolderEnabledDto}
    {fe : FolderEnabledDto} {w : FolderId × Bool}
    (opens : Opens tokens s.db userId accountToken (pre ++ fe :: post) accountId account)
    (quiet : ∀ x ∈ pre, x.Quiet tokens (enabledById (s.db.foldersOf accountId)))
    (asked : fe.write? tokens (enabledById (s.db.foldersOf accountId)) = some w) (valid : w.1 ≠ 0)
    (late : ¬ ((∀ x ∈ post, x.Quiet tokens (enabledById (s.db.foldersOf accountId))) ∧ account.enabled = false)) :
    ∃ e s', Runs (M := selectHost ι) (anyCourse ι)
      (setAccountFoldersEnabled tokens me openCredentials userId accountToken (pre ++ fe :: post)).run s
        (.error e) s' ∧
        s'.db.folders = (s.db.setFolderEnabled w.1 w.2).folders := by
  -- the entries before are passed over, and the write is made
  obtain ⟨f, mem, same, -⟩ := asked_folder asked
  have written : Runs (M := selectHost ι) (anyCourse ι)
    (mapErr toServerErr (transactFolder (.setEnabled w.1 w.2))).run s
      (.ok ()) { s with db := s.db.setFolderEnabled w.1 w.2 } :=
    transactFolder_goes (FolderRepository.updateEnabled_of_mem valid ⟨f, mem, same⟩)
  have begun : ∀ {r t}, Runs (M := selectHost ι) (anyCourse ι)
      (applySelection tokens (enabledById (s.db.foldersOf accountId)) post true).run
      { s with db := s.db.setFolderEnabled w.1 w.2 } r t →
      Runs (M := selectHost ι) (anyCourse ι)
        (applySelection tokens (enabledById (s.db.foldersOf accountId)) (pre ++ fe :: post) false).run s r t := by
    intro r t rest
    rw [applySelection_quiets quiet, applySelection_write asked]
    exact runs_seq_cases.mpr (.inl ⟨(), _, written, rest⟩)
  by_cases calm : ∀ x ∈ post, x.Quiet tokens (enabledById (s.db.foldersOf accountId))
  · have running : account.enabled = true := by
      by_contra disabled
      exact late ⟨calm, by simpa using disabled⟩
    have ended : (applySelection tokens (enabledById (s.db.foldersOf accountId)) post true : SelectAction ι _ _) = pure true := by
      have all := @applySelection_quiets _ _ ι _ calm [] true
      rwa [List.append_nil] at all
    obtain ⟨e, s', failed⟩ := restartSync_fails me openCredentials
      { s with db := s.db.setFolderEnabled w.1 w.2 } accountId
    have ends : Runs (M := selectHost ι) (anyCourse ι)
        (applySelection tokens (enabledById (s.db.foldersOf accountId)) post true).run
        { s with db := s.db.setFolderEnabled w.1 w.2 } (.ok true)
          { s with db := s.db.setFolderEnabled w.1 w.2 } := by
      rw [ended]
      exact .refl
    refine ⟨e, s', opens.runs (runs_seq_cases.mpr (.inl ⟨true, _, begun ends, ?_⟩)), restartSync_folders failed⟩
    rw [if_pos ⟨rfl, running⟩]
    exact failed
  · obtain ⟨q, x, rest, rfl, before, loud⟩ := exists_loud calm
    obtain ⟨e, failed⟩ := applySelection_fails loud { s with db := s.db.setFolderEnabled w.1 w.2 } rest true
    rw [← applySelection_quiets before] at failed
    exact ⟨e, _, opens.runs (runs_seq_cases.mpr (.inr ⟨e, rfl, begun failed⟩)), rfl⟩

/-- A write that was asked for changes the flag of its folder. -/
private theorem folderFlag_of_write {db db' : Database} {accountId : AccountId} {fe : FolderEnabledDto}
    {w : FolderId × Bool}
    (asked : fe.write? tokens (enabledById (db.foldersOf accountId)) = some w)
    (written : db'.folders = (db.setFolderEnabled w.1 w.2).folders) : db'.folderFlag w.1 ≠ db.folderFlag w.1 := by
  obtain ⟨f, mem, same, differs⟩ := asked_folder asked
  have before : db.folderFlag w.1 = some f.enabled := by
    rw [Database.folderFlag, Keyed.Table.find?_eq_some.mpr ⟨mem, same⟩]
    rfl
  have there : f.setEnabled w.2 ∈ db'.folders := by
    rw [written]
    exact Database.mem_setFolderEnabled.mpr ⟨f, mem, (if_pos same).symm⟩
  have after : db'.folderFlag w.1 = some w.2 := by
    rw [Database.folderFlag, Keyed.Table.find?_eq_some.mpr ⟨there, same⟩]
    rfl
  rw [before, after]
  exact fun h => differs (Option.some.inj h).symm

/-- Every failed request has left all flags as they were just where nothing can fail after a first write. -/
theorem setAccountFoldersEnabled_atomic_iff :
    (∀ e s', Runs (M := selectHost ι) (anyCourse ι)
      (setAccountFoldersEnabled tokens me openCredentials userId accountToken folders).run s (.error e) s' →
        ∀ folderId, s'.db.folderFlag folderId = s.db.folderFlag folderId) ↔
      FailsFirst tokens s.db userId accountToken folders := by
  constructor
  · intro atomic accountId account opens pre fe post w split quiet asked valid
    by_contra late
    subst split
    obtain ⟨e, s', run, written⟩ := setAccountFoldersEnabled_late opens quiet asked valid late
    exact folderFlag_of_write asked written (atomic e s' run w.1)
  · intro first e s' run folderId
    rw [Database.folderFlag, folders_of_failsFirst first run]
    rfl

end

/-- A token that does not parse comes after one that does: the first folder has been enabled, and its sync not started. -/
theorem setAccountFoldersEnabled_halfway : ∃ e s', Runs (M := selectHost Nat) (anyCourse Nat)
    (selectRequest [⟨"F_8", true⟩, ⟨"F_", true⟩]) twoAccountHost (.error e) s' ∧
      s'.db.folderFlag 8 ≠ twoAccountHost.db.folderFlag 8 ∧ s'.log = [] := by
  have run : Runs (M := selectHost Nat) (anyCourse Nat) (selectRequest [⟨"F_8", true⟩, ⟨"F_", true⟩]) twoAccountHost _
      ((selectHost Nat).follow freely 12 (selectRequest [⟨"F_8", true⟩, ⟨"F_", true⟩], twoAccountHost)).2 :=
    @reaches_follow (selectHost Nat) _ (anyCourse Nat) freely (fun _ _ => trivial) 12 (_, twoAccountHost)
  exact ⟨_, _, run, by decide, rfl⟩

end MailKeep
