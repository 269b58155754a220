import MailKeep.Accounts.FolderSelection

/-! What a selection that goes through leaves of the folders, and when that is what its entries asked for. -/
namespace MailKeep
open Program

def Folder.written (ws : List (FolderId × Bool)) (f : Folder) : Folder :=
  (ws.filter (·.1 = f.id)).foldl (fun f w => f.setEnabled w.2) f

section
variable {db : Database} {accountId : AccountId} {folders : List FolderEnabledDto}
    {tokens : TokenParsers} {f : Folder}
  {ws : List (FolderId × Bool)} {flag : Bool}

private theorem Database.mem_writeFlags : f ∈ (db.writeFlags ws).folders ↔ ∃ g ∈ db.folders, f = g.written ws :=
  @Keyed.Table.mem_writeAll _ _ _ _ _ db.folders _ Folder.setEnabled_id ws f

private theorem Database.writeFlags_ids :
    (db.writeFlags ws).folders.rows.map Folder.id = db.folders.rows.map Folder.id :=
  @Keyed.Table.writeAll_keys _ _ _ _ _ db.folders _ Folder.setEnabled_id ws

private theorem foldl_same (ws : List (FolderId × Bool)) (f : Folder) :
    (ws.foldl (fun f w => f.setEnabled w.2) f).id = f.id ∧
      (ws.foldl (fun f w => f.setEnabled w.2) f).accountId = f.accountId := by
  induction ws generalizing f with
  | nil => exact ⟨rfl, rfl⟩
  | cons w ws ih => exact ih (f.setEnabled w.2)

@[simp] theorem Folder.written_id (ws : List (FolderId × Bool)) (f : Folder) :
    (f.written ws).id = f.id := (foldl_same ..).1

@[simp] theorem Folder.written_accountId (ws : List (FolderId × Bool)) (f : Folder) :
    (f.written ws).accountId = f.accountId := (foldl_same ..).2

private theorem foldl_enabled {ws : List (FolderId × Bool)} {f : Folder} (all : ∀ w ∈ ws, w.2 = flag)
    (some : ws ≠ [] ∨ f.enabled = flag) : (ws.foldl (fun f w => f.setEnabled w.2) f).enabled = flag := by
  induction ws generalizing f with
  | nil => exact some.resolve_left (fun h => h rfl)
  | cons w ws ih => exact ih (fun v hv => all v (List.mem_cons_of_mem _ hv)) (.inr (all w List.mem_cons_self))

private theorem Folder.written_enabled (all : ∀ w ∈ ws, w.1 = f.id → w.2 = flag) (some : ∃ w ∈ ws, w.1 = f.id) :
    (f.written ws).enabled = flag := by
  apply foldl_enabled
  · intro w hw
    obtain ⟨mem, own⟩ := List.mem_filter.mp hw
    exact all w mem (of_decide_eq_true own)
  · obtain ⟨w, mem, own⟩ := some
    exact .inl (List.ne_nil_of_mem (List.mem_filter.mpr ⟨mem, decide_eq_true own⟩))

private theorem Folder.written_of_none (none : ∀ w ∈ ws, w.1 ≠ f.id) : f.written ws = f := by
  have nothing : ws.filter (·.1 = f.id) = [] := by
    apply List.filter_eq_nil_iff.mpr
    intro w hw own
    exact none w hw (of_decide_eq_true own)
  rw [Folder.written, nothing]
  rfl

/-- The flags read are those of the account's own folders. -/
private theorem enabledById_any {fid : FolderId} : (enabledById (db.foldersOf accountId) fid).any (· ≠ flag) = true ↔
    ∃ f ∈ db.folders, f.accountId = accountId ∧ f.id = fid ∧ f.enabled ≠ flag := by
  have distinct : ((db.foldersOf accountId).map Folder.id).Nodup :=
    db.folders.nodup.sublist (List.filter_sublist.map _)
  have found : enabledById (db.foldersOf accountId) fid =
      ((db.foldersOf accountId).find? (·.id = fid)).map Folder.enabled :=
    Keyed.foldl_update_eq_find? distinct fid
  rw [found, Option.any_map]
  constructor
  · intro differs
    cases hf : (db.foldersOf accountId).find? (·.id = fid) with
    | none =>
      rw [hf] at differs
      cases differs
    | some f =>
      rw [hf] at differs
      obtain ⟨mem, own⟩ := List.mem_filter.mp (List.mem_of_find?_eq_some hf)
      exact ⟨f, mem, of_decide_eq_true own, by simpa using List.find?_some hf, by simpa using differs⟩
  · rintro ⟨f, mem, own, rfl, differs⟩
    have listed : f ∈ db.foldersOf accountId := List.mem_filter.mpr ⟨mem, decide_eq_true own⟩
    have first : (db.foldersOf accountId).find? (fun g => decide (g.id = f.id)) = some f :=
      Keyed.find?_of_unique listed (decide_eq_true rfl) fun g hg same =>
        List.inj_on_of_nodup_map distinct hg listed (of_decide_eq_true same)
    rw [first]
    simpa using differs

/-- The writes that a payload asks for. -/
theorem mem_selectedWrites {w : FolderId × Bool} :
    w ∈ selectedWrites tokens (enabledById (db.foldersOf accountId)) folders ↔
      ∃ fe ∈ folders, fe.folderId? tokens = some w.1 ∧ fe.enabled = w.2 ∧
        ∃ f ∈ db.folders, f.accountId = accountId ∧ f.id = w.1 ∧ f.enabled ≠ w.2 := by
  unfold selectedWrites
  rw [List.mem_filterMap]
  constructor
  · rintro ⟨fe, mem, asked⟩
    obtain ⟨fid, named, chosen⟩ := Option.bind_eq_some_iff.mp asked
    split at chosen
    · rename_i differs
      cases chosen
      exact ⟨fe, mem, named, rfl, enabledById_any.mp differs⟩
    · cases chosen
  · rintro ⟨fe, mem, named, flag, differs⟩
    refine ⟨fe, mem, Option.bind_eq_some_iff.mpr ⟨w.1, named, ?_⟩⟩
    rw [flag, if_pos (enabledById_any.mpr differs)]

/-- One of the account's folders keeps its flag just where no entry asks for the other. -/
private theorem written_enabled_iff (mem : f ∈ db.folders) (own : f.accountId = accountId) :
    (f.written (selectedWrites tokens (enabledById (db.foldersOf accountId)) folders)).enabled = f.enabled ↔
      ∀ fe ∈ folders, fe.folderId? tokens = some f.id → fe.enabled = f.enabled := by
  have flips : ∀ w ∈ selectedWrites tokens (enabledById (db.foldersOf accountId)) folders, w.1 = f.id →
      w.2 = !f.enabled := by
    intro w hw same
    obtain ⟨fe, -, -, -, g, hg, -, he, differs⟩ := mem_selectedWrites.mp hw
    obtain rfl := Keyed.Table.eq_of_key hg mem (he.trans same)
    cases hf : g.enabled <;> simpa [hf] using differs
  constructor
  · intro kept fe hfe named
    by_contra differs
    have asked : (f.id, fe.enabled) ∈ selectedWrites tokens (enabledById (db.foldersOf accountId)) folders :=
      mem_selectedWrites.mpr ⟨fe, hfe, named, rfl, f, mem, own, rfl, Ne.symm differs⟩
    rw [Folder.written_enabled flips ⟨_, asked, rfl⟩] at kept
    cases hf : f.enabled <;> simp [hf] at kept
  · intro agree
    rw [Folder.written_of_none]
    intro w hw same
    obtain ⟨fe, hfe, named, flag, g, hg, -, he, differs⟩ := mem_selectedWrites.mp hw
    obtain rfl := Keyed.Table.eq_of_key hg mem (he.trans same)
    exact differs ((agree fe hfe (named.trans (congrArg some same))).symm.trans flag)

end
def lastFlag (tokens : TokenParsers) (folders : List FolderEnabledDto) (folderId : FolderId) : Option Bool :=
  (folders.reverse.find? fun fe => fe.folderId? tokens = some folderId).map (·.enabled)

private theorem lastFlag_some {tokens : TokenParsers} {folders : List FolderEnabledDto} {folderId : FolderId}
    {flag : Bool}
    (h : lastFlag tokens folders folderId = some flag) :
    ∃ fe ∈ folders, fe.folderId? tokens = some folderId ∧ fe.enabled = flag := by
  obtain ⟨fe, found, same⟩ := Option.map_eq_some_iff.mp h
  exact ⟨fe, List.mem_reverse.mp (List.mem_of_find?_eq_some found), by simpa using List.find?_some found, same⟩

private theorem lastFlag_none {tokens : TokenParsers} {folders : List FolderEnabledDto} {folderId : FolderId}
    (h : lastFlag tokens folders folderId = none) {fe : FolderEnabledDto} (mem : fe ∈ folders) :
    fe.folderId? tokens ≠ some folderId := by
  intro named
  have absent := List.find?_eq_none.mp (Option.map_eq_none_iff.mp h) fe (List.mem_reverse.mpr mem)
  exact absent (decide_eq_true named)

/-- The sync side of the host never writes a folder. -/
private theorem AccountTxn.body_folders {t : AccountTxn} {v : t.Result} {db db' : Database}
    (h : t.body db = .ok (v, db')) :
    db'.folders = db.folders := by
  cases t with
  | listEnabled => rw [(AccountRepository.mem_listEnabled h).1]
  | enable userId accountId =>
    rw [AccountService.setFlags_ok h]
    rfl
  | disable userId accountId =>
    rw [AccountService.setFlags_ok h]
    rfl
  | setStatus accountId status lastError =>
    rw [AccountRepository.rewrite_ok h]
    rfl
  | listEnabledFolders accountId =>
    change FolderRepository.listEnabledForAccount accountId db = _ at h
    unfold FolderRepository.listEnabledForAccount at h
    split at h <;> cases h
    rfl

section
variable {ι : Type} [DecidableEq ι] {s s' : SyncHost ι}

private theorem syncHost_folders (o : SyncOp ι) (c : o.Choice) :
    ((syncHost ι).exec o c s).2.db.folders = s.db.folders := by
  cases o with
  | transact me t =>
    change (s.transact me t c).2.db.folders = s.db.folders
    cases c with
    | some e => rfl
    | none =>
      cases body : t.body s.db with
      | error e => simp only [SyncHost.transact, body]
      | ok p =>
        obtain ⟨v, db⟩ := p
        rw [SyncHost.transact_ok body, ← AccountTxn.body_folders body]
        cases t <;> rfl
  | start accountId params => rfl
  | stop accountId => rfl
  | reclaim me accountId => rfl
  | status accountId => rfl
  | trackedAccounts => rfl

/-- A restart of the sync, however it ends, writes no folder. -/
theorem restartSync_folders {me : ι} {openCredentials : OpenCredentials} {accountId : AccountId}
    {r : Except ServerFnError Unit}
    (run : Runs (M := selectHost ι) (anyCourse ι) (restartSync me openCredentials accountId).run s r s') :
    s'.db.folders = s.db.folders := by
  have only : OnlyAct (fun o => ∃ so, o = SelectOp.sync so) (restartSync me openCredentials accountId) := by
    apply OnlyAct.seq
    · exact OnlyAct.mapErr (OnlyAct.embed (onPort ι) (Prog.only_true _) fun o _ => ⟨o, rfl⟩)
    · intro _
      exact OnlyAct.mapErr (OnlyAct.embed (onPort ι) (Prog.only_true _) fun o _ => ⟨o, rfl⟩)
  have keeps : ∀ t o c, (∃ so, o = SelectOp.sync so) → anyCourse ι t o c → t.db.folders = s.db.folders →
      ((selectHost ι).exec o c t).2.db.folders = s.db.folders := by
    rintro t _ c ⟨o, rfl⟩ - kept
    exact (syncHost_folders o c).trans kept
  exact Prog.Only.runs (M := selectHost ι) only keeps run rfl

/-- What a selection should leave: a folder that syncs, of each folder named the flag of its last entry, and the
other folders as they were. -/
structure SelectionApplied (tokens : TokenParsers) (accountId : AccountId) (folders : List FolderEnabledDto)
    (db db' : Database) : Prop where
  syncable : ∃ f ∈ db'.folders, f.accountId = accountId ∧ f.enabled = true
  named : ∀ f ∈ db.folders, f.accountId = accountId → ∀ flag, lastFlag tokens folders f.id = some flag →
    ∃ f' ∈ db'.folders, f'.id = f.id ∧ f'.accountId = accountId ∧ f'.enabled = flag
  others : ∀ f ∈ db.folders, f.accountId ≠ accountId ∨ lastFlag tokens folders f.id = none → f ∈ db'.folders
  ids : db'.folders.rows.map Folder.id = db.folders.rows.map Folder.id

/-- An account's folder whose last entry has its flag has no entry with the other, and one of its folders is enabled
by its last entry, or enabled and not named. -/
structure SelectionSound (tokens : TokenParsers) (accountId : AccountId)
    (folders : List FolderEnabledDto) (db : Database) :
    Prop where
  steady : ∀ f ∈ db.folders, f.accountId = accountId → lastFlag tokens folders f.id = some f.enabled →
    ∀ fe ∈ folders, fe.folderId? tokens = some f.id → fe.enabled = f.enabled
  leaves : ∃ f ∈ db.folders, f.accountId = accountId ∧ (lastFlag tokens folders f.id).getD f.enabled = true

variable {tokens : TokenParsers} {me : ι} {openCredentials : OpenCredentials} {userId : UserId}
    {accountToken : String}
  {folders : List FolderEnabledDto} {accountId : AccountId}

/-- A request that goes through has made all writes, and no others. -/
private theorem setAccountFoldersEnabled_ok (parsed : tokens.account accountToken = .ok accountId)
    (run : Runs (M := selectHost ι) (anyCourse ι)
      (setAccountFoldersEnabled tokens me openCredentials userId accountToken folders).run s (.ok ()) s') :
    s'.db.folders =
      (s.db.writeFlags (selectedWrites tokens (enabledById (s.db.foldersOf accountId)) folders)).folders := by
  rcases setAccountFoldersEnabled_cases run with ⟨e, bad, -⟩ | ⟨id, account, opens, write⟩
  · cases bad
  obtain rfl : id = accountId := Except.ok.inj (opens.parsed.symm.trans parsed)
  obtain ⟨changed, t, loop, restart⟩ := runs_seq.mp write
  obtain ⟨done, left, rfl, -, rfl, ⟨rfl, -⟩ | ⟨e, fe, rest, bad, -⟩⟩ := applySelection_runs loop
  · rw [List.append_nil]
    split at restart
    · exact restartSync_folders restart
    · obtain ⟨-, rfl⟩ := runs_ret.mp restart
      rfl
  · cases bad

omit [DecidableEq ι] in
/-- Where no folder has entries at odds with its last, each ends with the flag of its last entry. -/
private theorem written_enabled_of_steady {db : Database} {f : Folder} (mem : f ∈ db.folders)
    (own : f.accountId = accountId)
    (steady : lastFlag tokens folders f.id = some f.enabled →
      ∀ fe ∈ folders, fe.folderId? tokens = some f.id → fe.enabled = f.enabled) :
    (f.written (selectedWrites tokens (enabledById (db.foldersOf accountId)) folders)).enabled =
      (lastFlag tokens folders f.id).getD f.enabled := by
  have kept : _ ↔ ∀ fe ∈ folders, fe.folderId? tokens = some f.id → fe.enabled = f.enabled :=
    written_enabled_iff mem own
  cases last : lastFlag tokens folders f.id with
  | none => exact kept.mpr fun fe hfe named => absurd named (lastFlag_none last hfe)
  | some flag =>
    by_cases same : flag = f.enabled
    · exact (kept.mpr (steady (last.trans (congrArg some same)))).trans same.symm
    · obtain ⟨fe, hfe, named, flag_eq⟩ := lastFlag_some last
      have flipped : (f.written (selectedWrites tokens (enabledById (db.foldersOf accountId)) folders)).enabled ≠ f.enabled :=
        fun h => same (flag_eq.symm.trans (kept.mp h fe hfe named))
      exact (Bool.eq_not_of_ne flipped).trans (Bool.eq_not_of_ne same).symm

omit [DecidableEq ι] in
/-- The writes leave what they should just where the payload is sound. -/
private theorem selectionApplied_iff {db db' : Database}
    (written : db'.folders = (db.writeFlags (selectedWrites tokens (enabledById (db.foldersOf accountId)) folders)).folders) :
    SelectionApplied tokens accountId folders db db' ↔ SelectionSound tokens accountId folders db := by
  have after : ∀ f ∈ db.folders, f.written (selectedWrites tokens (enabledById (db.foldersOf accountId)) folders) ∈ db'.folders :=
    fun f mem => written ▸ Database.mem_writeFlags.mpr ⟨f, mem, rfl⟩
  constructor
  · intro applied
    have flag_of_last : ∀ f ∈ db.folders, f.accountId = accountId →
      ∀ flag, lastFlag tokens folders f.id = some flag →
        (f.written (selectedWrites tokens (enabledById (db.foldersOf accountId)) folders)).enabled = flag := by
      intro f mem own flag last
      obtain ⟨f', mem', same, -, rfl⟩ := applied.named f mem own flag last
      rw [Keyed.Table.eq_of_key mem' (after f mem) (same.trans (Folder.written_id ..).symm)]
    have steady : ∀ f ∈ db.folders, f.accountId = accountId → lastFlag tokens folders f.id = some f.enabled →
        ∀ fe ∈ folders, fe.folderId? tokens = some f.id → fe.enabled = f.enabled := by
      intro f mem own last
      exact (written_enabled_iff mem own).mp (flag_of_last f mem own _ last)
    refine ⟨steady, ?_⟩
    obtain ⟨f', mem', own, on⟩ := applied.syncable
    obtain ⟨f, mem, rfl⟩ := Database.mem_writeFlags.mp (written ▸ mem')
    rw [Folder.written_accountId] at own
    exact ⟨f, mem, own, (written_enabled_of_steady mem own (steady f mem own)).symm.trans on⟩
  · intro sound
    have flag_after : ∀ f ∈ db.folders, f.accountId = accountId →
        (f.written (selectedWrites tokens (enabledById (db.foldersOf accountId)) folders)).enabled =
          (lastFlag tokens folders f.id).getD f.enabled := by
      intro f mem own
      exact written_enabled_of_steady mem own (sound.steady f mem own)
    refine ⟨?_, ?_, ?_, ?_⟩
    · obtain ⟨f, mem, own, on⟩ := sound.leaves
      exact ⟨_, after f mem, by rwa [Folder.written_accountId], (flag_after f mem own).trans on⟩
    · intro f mem own flag last
      refine ⟨_, after f mem, Folder.written_id .., by rwa [Folder.written_accountId], ?_⟩
      rw [flag_after f mem own, last]
      rfl
    · intro f mem apart
      have untouched : f.written (selectedWrites tokens (enabledById (db.foldersOf accountId)) folders) = f := by
        apply Folder.written_of_none
        intro w hw same
        obtain ⟨fe, hfe, named, -, g, hg, own, he, -⟩ := mem_selectedWrites.mp hw
        obtain rfl := Keyed.Table.eq_of_key hg mem (he.trans same)
        rcases apart with foreign | unnamed
        · exact foreign own
        · exact lastFlag_none unnamed hfe (named.trans (congrArg some same))
      exact untouched ▸ after f mem
    · rw [written]
      exact Database.writeFlags_ids

/-- A request that goes through leaves what it should just where its payload is sound. -/
theorem setAccountFoldersEnabled_exact (parsed : tokens.account accountToken = .ok accountId)
    (run : Runs (M := selectHost ι) (anyCourse ι)
      (setAccountFoldersEnabled tokens me openCredentials userId accountToken folders).run s (.ok ()) s') :
    SelectionApplied tokens accountId folders s.db s'.db ↔ SelectionSound tokens accountId folders s.db :=
  selectionApplied_iff (setAccountFoldersEnabled_ok parsed run)

end

def sampleTokens : TokenParsers where
  account token := if token = "A_1" then .ok 1 else .error (.validation "invalid token")
  folder token :=
    if token = "F_7" then .ok 7 else if token = "F_8" then .ok 8 else if token = "F_9" then .ok 9
    else .error (.validation "invalid token")

/-- Two accounts; the first syncs one of its two folders. -/
def twoAccountHost : SyncHost Nat where
  db := {
    accounts := ⟨[workAccount, { workAccount with id := 2, userId := 2 }], by simp [workAccount]⟩
    folders := ⟨[inbox none 0, { inbox none 0 with id := 8, path := "Lists", enabled := false },
      { inbox none 0 with id := 9, accountId := 2 }], by simp [inbox]⟩
    messages := .empty
    locations := .empty
    attachments := .empty
    jobs := .empty
    nextJobId := 1 }
  tracked := []
  log := []
  since _ := []

def freely : (o : SelectOp Nat) → o.Choice
  | .sync o => untroubled o
  | .transact _ => none

def selectRequest (folders : List FolderEnabledDto) : Prog (selectSignature Nat) (Except ServerFnError Unit) :=
  (setAccountFoldersEnabled sampleTokens 0 (fun _ _ => .ok "secret") 1 "A_1" folders).run

/-- The first folder is swapped for the second. -/
theorem setAccountFoldersEnabled_exact_swap : ∃ s', Runs (M := selectHost Nat) (anyCourse Nat)
    (selectRequest [⟨"F_7", false⟩, ⟨"F_8", true⟩]) twoAccountHost (.ok ()) s' ∧
      SelectionApplied sampleTokens 1 [⟨"F_7", false⟩, ⟨"F_8", true⟩] twoAccountHost.db s'.db := by
  have run : Runs (M := selectHost Nat) (anyCourse Nat) (selectRequest [⟨"F_7", false⟩, ⟨"F_8", true⟩]) twoAccountHost (.ok ())
      ((selectHost Nat).follow freely 12 (selectRequest [⟨"F_7", false⟩, ⟨"F_8", true⟩], twoAccountHost)).2 :=
    @reaches_follow (selectHost Nat) _ (anyCourse Nat) freely (fun _ _ => trivial) 12 (_, twoAccountHost)
  have sound : SelectionSound sampleTokens 1 [⟨"F_7", false⟩, ⟨"F_8", true⟩] twoAccountHost.db := by
    constructor
    · change ∀ f ∈ twoAccountHost.db.folders.rows, _
      decide
    · change ∃ f ∈ twoAccountHost.db.folders.rows, _
      decide
  exact ⟨_, run, (setAccountFoldersEnabled_exact rfl run).mpr sound⟩

/-- The request enables a folder of another account and disables the last of this one. -/
theorem setAccountFoldersEnabled_lastFolder : ∃ s', Runs (M := selectHost Nat) (anyCourse Nat)
    (selectRequest [⟨"F_9", true⟩, ⟨"F_7", false⟩]) twoAccountHost (.ok ()) s' ∧
      (∃ f ∈ twoAccountHost.db.folders, f.accountId = 1 ∧ f.enabled = true) ∧
      (∀ f ∈ s'.db.folders, f.accountId = 1 → f.enabled = false) ∧
      ¬ SelectionApplied sampleTokens 1 [⟨"F_9", true⟩, ⟨"F_7", false⟩] twoAccountHost.db s'.db := by
  have run : Runs (M := selectHost Nat) (anyCourse Nat) (selectRequest [⟨"F_9", true⟩, ⟨"F_7", false⟩]) twoAccountHost (.ok ())
      ((selectHost Nat).follow freely 12 (selectRequest [⟨"F_9", true⟩, ⟨"F_7", false⟩], twoAccountHost)).2 :=
    @reaches_follow (selectHost Nat) _ (anyCourse Nat) freely (fun _ _ => trivial) 12 (_, twoAccountHost)
  have silent : ∀ f ∈ ((selectHost Nat).follow freely 12
      (selectRequest [⟨"F_9", true⟩, ⟨"F_7", false⟩], twoAccountHost)).2.db.folders.rows, f.accountId = 1 → f.enabled = false := by
    decide
  refine ⟨_, run, ⟨_, List.mem_cons_self, rfl, rfl⟩, silent, ?_⟩
  intro applied
  obtain ⟨f, mem, own, on⟩ := applied.syncable
  cases on.symm.trans (silent f mem own)

end MailKeep
