import MailKeep.Accounts.Reconcile
import MailKeep.Database.Listing
import MailKeep.Program.Only

/-! The request that selects which folders of an account sync. -/
namespace MailKeep
open Program

structure FolderEnabledDto where
  token : String
  enabled : Bool

structure TokenParsers where
  account : String → Except Error AccountId
  folder : String → Except Error FolderId

def Folder.setEnabled (enabled : Bool) (f : Folder) : Folder :=
  { f with enabled := enabled, version := f.version + 1 }

@[simp] theorem Folder.setEnabled_id (enabled : Bool) (f : Folder) : (f.setEnabled enabled).id = f.id := rfl

def Database.setFolderEnabled (db : Database) (folderId : FolderId) (enabled : Bool) : Database :=
  { db with folders := db.folders.update (·.id = folderId) (·.setEnabled enabled) fun f => f.setEnabled_id enabled }

def FolderRepository.updateEnabled (folderId : FolderId) (enabled : Bool) : Transaction Unit := fun db =>
  if folderId = 0 then .error (.invalidId folderId)
  else match db.folders.find? folderId with
  | none => .error (.repositoryError .notFound)
  | some _ => .ok ((), db.setFolderEnabled folderId enabled)

inductive FolderTxn
  | getAccount (userId : UserId) (accountId : AccountId)
  | listFolders (accountId : AccountId)
  | setEnabled (folderId : FolderId) (enabled : Bool)

abbrev FolderTxn.Result : FolderTxn → Type
  | getAccount _ _ => Account
  | listFolders _ => List Folder
  | setEnabled _ _ => Unit

def FolderTxn.body : (t : FolderTxn) → Transaction t.Result
  | getAccount userId accountId => AccountService.ownAccount userId accountId
  | listFolders accountId => fun db => (FolderRepository.listForAccount db accountId).map fun folders =>
    (folders, db)
  | setEnabled folderId enabled => FolderRepository.updateEnabled folderId enabled

inductive SelectOp (ι : Type)
  | sync (o : SyncOp ι)
  | transact (t : FolderTxn)

abbrev SelectOp.Value : SelectOp ι → Type
  | sync o => o.Value
  | transact t => Except Error t.Result

abbrev SelectOp.Choice : SelectOp ι → Type
  | sync o => o.Choice
  | transact _ => Option DbErr

def SyncHost.transactFolder (s : SyncHost ι) (t : FolderTxn) : Option DbErr → Except Error t.Result × SyncHost ι
  | some e => (.error (.repositoryError (handleDberr e)), s)
  | none =>
    match t.body s.db with
    | .error e => (.error e, s)
    | .ok (r, db) => (.ok r, { s with db := db })

abbrev selectSignature (ι : Type) : Signature := ⟨SelectOp ι, SelectOp.Value⟩

abbrev selectHost (ι : Type) [DecidableEq ι] : Machine where
  toSignature := selectSignature ι
  State := SyncHost ι
  Choice := SelectOp.Choice
  exec
    | .sync o, c, s => (syncHost ι).exec o c s
    | .transact t, c, s => s.transactFolder t c

abbrev SelectAction (ι ε α : Type) := Action (selectSignature ι) ε α

def onPort (ι : Type) : Embedding (syncSignature ι) (selectSignature ι) := ⟨.sync, fun _ r => r⟩

section
variable {ι : Type} (tokens : TokenParsers)

def transactFolder (t : FolderTxn) : SelectAction ι Error t.Result := .mk (.call (SelectOp.transact t) .ret)

def enabledById (current : List Folder) : FolderId → Option Bool :=
  current.foldl (fun byId f => Function.update byId f.id (some f.enabled)) fun _ => none

/-- Writes the flags that differ from those read, one by one, and tells whether there was any. -/
def applySelection (byId : FolderId → Option Bool) : List FolderEnabledDto → Bool →
    SelectAction ι ServerFnError Bool
  | [], changed => pure changed
  | fe :: folders, changed => do
    let fid ← mapErr toServerErr (liftResult (tokens.folder fe.token))
    if (byId fid).any (· ≠ fe.enabled) then do
      mapErr toServerErr (transactFolder (.setEnabled fid fe.enabled))
      applySelection byId folders true
    else applySelection byId folders changed

variable (me : ι) (openCredentials : OpenCredentials)

def restartSync (accountId : AccountId) : SelectAction ι ServerFnError Unit := do
  mapErr toServerErr ((onPort ι).act (stopAccount accountId))
  mapErr toServerErr ((onPort ι).act (startAccount me openCredentials accountId))

def selectFolders (account : Account) (accountId : AccountId) (current : List Folder)
    (folders : List FolderEnabledDto) :
    SelectAction ι ServerFnError Unit := do
  let changed ← applySelection tokens (enabledById current) folders false
  if changed = true ∧ account.enabled = true then restartSync me openCredentials accountId else pure ()

def setAccountFoldersEnabled (userId : UserId) (accountToken : String) (folders : List FolderEnabledDto) :
    SelectAction ι ServerFnError Unit := do
  let accountId ← mapErr toServerErr (liftResult (tokens.account accountToken))
  let account ← mapErr toServerErr (transactFolder (.getAccount userId accountId))
  reject (folders.any (·.enabled) = false) "At least one folder must be enabled."
  let current ← mapErr toServerErr (transactFolder (.listFolders accountId))
  selectFolders tokens me openCredentials account accountId current folders

def FolderEnabledDto.folderId? (fe : FolderEnabledDto) : Option FolderId := (tokens.folder fe.token).toOption

def FolderEnabledDto.write? (byId : FolderId → Option Bool) (fe : FolderEnabledDto) : Option (FolderId × Bool) :=
  (fe.folderId? tokens).bind fun fid => if (byId fid).any (· ≠ fe.enabled) then some (fid, fe.enabled) else none

def FolderEnabledDto.Quiet (byId : FolderId → Option Bool) (fe : FolderEnabledDto) : Prop :=
  (fe.folderId? tokens).isSome ∧ fe.write? tokens byId = none

def FolderEnabledDto.Done (byId : FolderId → Option Bool) (fe : FolderEnabledDto) : Prop :=
  fe.Quiet tokens byId ∨ ∃ w, fe.write? tokens byId = some w ∧ w.1 ≠ 0

def selectedWrites (byId : FolderId → Option Bool) (folders : List FolderEnabledDto) : List (FolderId × Bool) :=
  folders.filterMap (·.write? tokens byId)

end

def Database.writeFlags (db : Database) (ws : List (FolderId × Bool)) : Database :=
  { db with folders := db.folders.writeAll Folder.setEnabled Folder.setEnabled_id ws }

theorem Database.mem_setFolderEnabled {db : Database} {folderId : FolderId} {enabled : Bool} {f : Folder} :
    f ∈ (db.setFolderEnabled folderId enabled).folders ↔
      ∃ g ∈ db.folders, f = if g.id = folderId then g.setEnabled enabled else g := by
  rw [setFolderEnabled, Keyed.Table.mem_update]
  simp only [decide_eq_true_eq]

theorem FolderRepository.updateEnabled_ok {folderId : FolderId} {enabled : Bool} {u : Unit} {db db' : Database}
    (h : updateEnabled folderId enabled db = .ok (u, db')) :
      folderId ≠ 0 ∧ db' = db.setFolderEnabled folderId enabled := by
  unfold updateEnabled at h
  split at h
  · cases h
  · rename_i valid
    split at h
    · cases h
    · cases h
      exact ⟨valid, rfl⟩

theorem FolderRepository.updateEnabled_of_mem {folderId : FolderId} {enabled : Bool}
    {db : Database} (valid : folderId ≠ 0)
    (there : ∃ f ∈ db.folders, f.id = folderId) :
    updateEnabled folderId enabled db = .ok ((), db.setFolderEnabled folderId enabled) := by
  obtain ⟨f, mem, same⟩ := there
  unfold updateEnabled
  rw [if_neg valid, Keyed.Table.find?_eq_some.mpr ⟨mem, same⟩]

section
variable {ι : Type} [DecidableEq ι] {tokens : TokenParsers} {me : ι} {openCredentials : OpenCredentials}
    {s s' : SyncHost ι}
  {byId : FolderId → Option Bool} {folders : List FolderEnabledDto} {changed : Bool}

omit [DecidableEq ι] in
/-- A transaction goes through with its own result or leaves the host as it was. -/
private theorem SyncHost.transactFolder_cases (s : SyncHost ι) (t : FolderTxn) (c : Option DbErr) :
    (∃ r db, t.body s.db = .ok (r, db) ∧ s.transactFolder t c = (.ok r, { s with db := db })) ∨
      ∃ e, s.transactFolder t c = (.error e, s) := by
  unfold SyncHost.transactFolder
  cases c with
  | some e => exact .inr ⟨_, rfl⟩
  | none =>
    cases h : t.body s.db with
    | error e => exact .inr ⟨e, rfl⟩
    | ok p => exact .inl ⟨p.1, p.2, rfl, rfl⟩

/-- Whatever the environment does. -/
abbrev anyCourse (ι : Type) [DecidableEq ι] : (selectHost ι).Allowed := fun _ _ _ => True

theorem transactFolder_runs {t : FolderTxn} {r : Except ServerFnError t.Result} :
    Runs (M := selectHost ι) (anyCourse ι) (mapErr toServerErr (transactFolder t)).run s r s' ↔
      ∃ c, (s.transactFolder t c).1.mapError toServerErr = r ∧ (s.transactFolder t c).2 = s' := by
  apply (runs_op (M := selectHost ι) (o := .transact t) (k := Except.mapError toServerErr)).trans
  simp only [true_and]

omit [DecidableEq ι] in
theorem applySelection_error {fe : FolderEnabledDto} {e : Error} (h : tokens.folder fe.token = .error e) :
    (applySelection tokens byId (fe :: folders) changed : SelectAction ι _ _) = throw (toServerErr e) := by
  rw [applySelection, h]
  rfl

omit [DecidableEq ι] in
theorem applySelection_quiet {fe : FolderEnabledDto} (h : fe.Quiet tokens byId) :
    (applySelection tokens byId (fe :: folders) changed : SelectAction ι _ _) =
      applySelection tokens byId folders changed := by
  obtain ⟨named, none⟩ := h
  rw [FolderEnabledDto.write?, FolderEnabledDto.folderId?] at none
  rw [FolderEnabledDto.folderId?] at named
  rw [applySelection]
  cases parsed : tokens.folder fe.token with
  | error e => simp [parsed, Except.toOption] at named
  | ok fid =>
    have same : ¬ (byId fid).any (· ≠ fe.enabled) = true := by simpa [parsed, Except.toOption] using none
    change (if _ then _ else _ : SelectAction ι _ _) = _
    rw [if_neg same]

omit [DecidableEq ι] in
theorem applySelection_write {fe : FolderEnabledDto} {w : FolderId × Bool} (h : fe.write? tokens byId = some w) :
    (applySelection tokens byId (fe :: folders) changed : SelectAction ι _ _) =
      mapErr toServerErr (transactFolder (.setEnabled w.1 w.2)) >>= fun _ =>
        applySelection tokens byId folders true := by
  rw [FolderEnabledDto.write?, FolderEnabledDto.folderId?] at h
  rw [applySelection]
  cases parsed : tokens.folder fe.token with
  | error e => simp [parsed, Except.toOption] at h
  | ok fid =>
    have differs : (byId fid).any (· ≠ fe.enabled) = true ∧ (fid, fe.enabled) = w := by
      simpa [parsed, Except.toOption] using h
    obtain ⟨differs, rfl⟩ := differs
    change (if _ then _ else _ : SelectAction ι _ _) = _
    rw [if_pos differs]

theorem selectedWrites_quiet {fe : FolderEnabledDto} (h : fe.Quiet tokens byId) :
    selectedWrites tokens byId (fe :: folders) = selectedWrites tokens byId folders := by
  rw [selectedWrites, List.filterMap_cons, h.2]
  rfl

theorem selectedWrites_write {fe : FolderEnabledDto} {w : FolderId × Bool} (h : fe.write? tokens byId = some w) :
    selectedWrites tokens byId (fe :: folders) = w :: selectedWrites tokens byId folders := by
  rw [selectedWrites, List.filterMap_cons, h]
  rfl

/-- An entry has a token that does not parse, asks for nothing, or asks for a write. -/
theorem FolderEnabledDto.cases (tokens : TokenParsers) (byId : FolderId → Option Bool) (fe : FolderEnabledDto) :
    (∃ e, tokens.folder fe.token = .error e) ∨ fe.Quiet tokens byId ∨ ∃ w, fe.write? tokens byId = some w := by
  cases parsed : tokens.folder fe.token with
  | error e => exact .inl ⟨e, rfl⟩
  | ok fid =>
    cases asked : fe.write? tokens byId with
    | none => exact .inr (.inl ⟨by simp [FolderEnabledDto.folderId?, parsed, Except.toOption], asked⟩)
    | some w => exact .inr (.inr ⟨w, rfl⟩)

/-- The loop makes the writes of the entries it has done; where it fails, the next entry is no quiet one. -/
theorem applySelection_runs {r : Except ServerFnError Bool}
    (run : Runs (M := selectHost ι) (anyCourse ι) (applySelection tokens byId folders changed).run s r s') :
    ∃ done left, folders = done ++ left ∧ (∀ fe ∈ done, fe.Done tokens byId) ∧
      s' = { s with db := s.db.writeFlags (selectedWrites tokens byId done) } ∧
      (left = [] ∧ r = .ok (changed || !(selectedWrites tokens byId done).isEmpty) ∨
        ∃ e fe rest, r = .error e ∧ left = fe :: rest ∧ ¬ fe.Quiet tokens byId) := by
  induction folders generalizing s changed with
  | nil =>
    obtain ⟨rfl, rfl⟩ := runs_ret.mp run
    exact ⟨[], [], rfl, nofun, rfl, .inl ⟨rfl, by simp [selectedWrites]⟩⟩
  | cons fe folders ih =>
    rcases fe.cases tokens byId with ⟨e, unparsed⟩ | quiet | ⟨w, asked⟩
    · rw [applySelection_error unparsed] at run
      obtain ⟨rfl, rfl⟩ := runs_ret.mp run
      have loud : ¬ fe.Quiet tokens byId := by
        rintro ⟨named, -⟩
        simp [FolderEnabledDto.folderId?, unparsed, Except.toOption] at named
      exact ⟨[], fe :: folders, rfl, nofun, rfl, .inr ⟨_, fe, folders, rfl, rfl, loud⟩⟩
    · rw [applySelection_quiet quiet] at run
      obtain ⟨done, left, rfl, all, rfl, ends⟩ := ih run
      refine ⟨fe :: done, left, rfl, List.forall_mem_cons.mpr ⟨.inl quiet, all⟩, ?_⟩
      rw [selectedWrites_quiet quiet]
      exact ⟨rfl, ends⟩
    · have loud : ¬ fe.Quiet tokens byId := fun quiet => by cases asked.symm.trans quiet.2
      rw [applySelection_write asked] at run
      rcases runs_seq_cases.mp run with ⟨u, t, first, rest⟩ | ⟨e, rfl, failed⟩
      · obtain ⟨c, result, rfl⟩ := transactFolder_runs.mp first
        rcases s.transactFolder_cases (.setEnabled w.1 w.2) c with ⟨v, db, body, done⟩ | ⟨e, bad⟩
        · obtain ⟨valid, rfl⟩ := FolderRepository.updateEnabled_ok body
          rw [done] at rest
          obtain ⟨done, left, rfl, all, rfl, ends⟩ := ih rest
          refine ⟨fe :: done, left, rfl, List.forall_mem_cons.mpr ⟨.inr ⟨w, asked, valid⟩, all⟩, ?_⟩
          rw [selectedWrites_write asked]
          refine ⟨rfl, ?_⟩
          rcases ends with ⟨rfl, rfl⟩ | failed
          · exact .inl ⟨rfl, by simp⟩
          · exact .inr failed
        · rw [bad] at result
          cases result
      · obtain ⟨c, result, rfl⟩ := transactFolder_runs.mp failed
        rcases s.transactFolder_cases (.setEnabled w.1 w.2) c with ⟨v, db, body, done⟩ | ⟨e', bad⟩
        · rw [done] at result
          cases result
        · rw [bad]
          exact ⟨[], fe :: folders, rfl, nofun, rfl, .inr ⟨e, fe, folders, rfl, rfl, loud⟩⟩

/-- The request gets as far as the folders: the account is the user's own and the payload enables something. -/
structure Opens (tokens : TokenParsers) (db : Database) (userId : UserId) (accountToken : String)
    (folders : List FolderEnabledDto) (accountId : AccountId) (account : Account) : Prop where
  parsed : tokens.account accountToken = .ok accountId
  own : AccountService.ownAccount userId accountId db = .ok (account, db)
  asks : folders.any (·.enabled) = true

def Database.foldersOf (db : Database) (accountId : AccountId) :
    List Folder := db.folders.rows.filter (·.accountId = accountId)

variable {userId : UserId} {accountToken : String} {r : Except ServerFnError Unit}

omit [DecidableEq ι] in
private theorem own_valid {db : Database} {accountId : AccountId} {p : Account × Database}
    (own : AccountService.ownAccount userId accountId db = .ok p) : accountId ≠ 0 := by
  rintro rfl
  cases own

/-- A transaction that only reads leaves the host as it was. -/
theorem transactFolder_reads {t : FolderTxn} (reads : ∀ v db, t.body s.db = .ok (v, db) → db = s.db)
    {r : Except ServerFnError t.Result}
    (run : Runs (M := selectHost ι) (anyCourse ι) (mapErr toServerErr (transactFolder t)).run s r s') :
    s' = s ∧ ((∃ e, r = .error e) ∨ ∃ v, r = .ok v ∧ t.body s.db = .ok (v, s.db)) := by
  obtain ⟨c, rfl, rfl⟩ := transactFolder_runs.mp run
  rcases s.transactFolder_cases t c with ⟨v, db, body, done⟩ | ⟨e, bad⟩
  · rw [done]
    obtain rfl := reads v db body
    exact ⟨rfl, .inr ⟨v, rfl, body⟩⟩
  · rw [bad]
    exact ⟨rfl, .inl ⟨_, rfl⟩⟩

/-- One that can go through does where the environment lets it. -/
theorem transactFolder_goes {t : FolderTxn} {v : t.Result} {db : Database} (body : t.body s.db = .ok (v, db)) :
    Runs (M := selectHost ι) (anyCourse ι) (mapErr toServerErr (transactFolder t)).run s
      (.ok v) { s with db := db } := by
  have goes : s.transactFolder t none = (.ok v, { s with db := db }) := by simp only [SyncHost.transactFolder, body]
  apply transactFolder_runs.mpr
  exact ⟨none, by rw [goes]; rfl, by rw [goes]⟩

omit [DecidableEq ι] in
private theorem listFolders_body {db : Database} {accountId : AccountId} (valid : accountId ≠ 0) :
    (FolderTxn.listFolders accountId).body db = .ok (db.foldersOf accountId, db) := by
  change (FolderRepository.listForAccount db accountId).map _ = _
  rw [FolderRepository.listForAccount, if_neg valid]
  rfl

/-- A request ends without a write, or with its writing part. -/
theorem setAccountFoldersEnabled_cases
    (run : Runs (M := selectHost ι) (anyCourse ι)
      (setAccountFoldersEnabled tokens me openCredentials userId accountToken folders).run s r s') :
    (∃ e, r = .error e ∧ s' = s) ∨ ∃ accountId account,
      Opens tokens s.db userId accountToken folders accountId account ∧
      Runs (M := selectHost ι) (anyCourse ι)
        (selectFolders tokens me openCredentials account accountId (s.db.foldersOf accountId) folders).run s r s' := by
  rcases runs_seq_cases.mp run with ⟨accountId, t, first, run₁⟩ | ⟨e, rfl, failed⟩
  swap
  · exact .inl ⟨e, rfl, (runs_ret.mp failed).2.symm⟩
  obtain ⟨parsed, rfl⟩ := runs_liftResult.mp (runs_mapErr.mp first)
  have own_reads : ∀ v db, (FolderTxn.getAccount userId accountId).body s.db = .ok (v, db) →
    db = s.db := fun v db body =>
    (AccountService.ownAccount_ok body).1
  rcases runs_seq_cases.mp run₁ with ⟨account, t, first, run₂⟩ | ⟨e, rfl, failed⟩
  swap
  · exact .inl ⟨e, rfl, (transactFolder_reads own_reads failed).1⟩
  obtain ⟨rfl, ⟨e, bad⟩ | ⟨v, same, own⟩⟩ := transactFolder_reads own_reads first
  · cases bad
  cases same
  rcases runs_seq_cases.mp run₂ with ⟨u, t', first, run₃⟩ | ⟨e, rfl, failed⟩
  swap
  · unfold reject at failed
    split at failed
    · exact .inl ⟨e, rfl, (runs_ret.mp failed).2.symm⟩
    · exact .inl ⟨e, rfl, (runs_ret.mp failed).2.symm⟩
  obtain ⟨asks, rfl⟩ := runs_reject.mp first
  have lists : (FolderTxn.listFolders accountId).body t.db = _ := listFolders_body (own_valid own)
  have list_reads : ∀ v db, (FolderTxn.listFolders accountId).body t.db = .ok (v, db) → db = t.db := by
    intro v db body
    cases lists.symm.trans body
    rfl
  rcases runs_seq_cases.mp run₃ with ⟨current, t', first, run₄⟩ | ⟨e, rfl, failed⟩
  swap
  · exact .inl ⟨e, rfl, (transactFolder_reads list_reads failed).1⟩
  obtain ⟨rfl, ⟨e, bad⟩ | ⟨v, same, listed⟩⟩ := transactFolder_reads list_reads first
  · cases bad
  cases same
  cases lists.symm.trans listed
  exact .inr ⟨accountId, account, ⟨parsed, own, by simpa using asks⟩, run₄⟩

/-- Where the request gets as far as the folders, it can go on with its writing part. -/
theorem Opens.runs {accountId : AccountId} {account : Account}
    (h : Opens tokens s.db userId accountToken folders accountId account)
    (run : Runs (M := selectHost ι) (anyCourse ι)
      (selectFolders tokens me openCredentials account accountId (s.db.foldersOf accountId) folders).run s r s') :
    Runs (M := selectHost ι) (anyCourse ι)
      (setAccountFoldersEnabled tokens me openCredentials userId accountToken folders).run s r s' := by
  apply runs_seq_cases.mpr
  refine .inl ⟨accountId, s, runs_mapErr.mpr (runs_liftResult.mpr ⟨h.parsed, rfl⟩), ?_⟩
  apply runs_seq_cases.mpr
  refine .inl ⟨account, s, transactFolder_goes h.own, ?_⟩
  apply runs_seq_cases.mpr
  refine .inl ⟨(), s, runs_reject.mpr ⟨by simp [h.asks], rfl⟩, ?_⟩
  apply runs_seq_cases.mpr
  exact .inl ⟨_, s, transactFolder_goes (listFolders_body (own_valid h.own)), run⟩

end

end MailKeep
