import MailKeep.Imap.Tasks
import MailKeep.Program.Place

/-! The tasks of an account share one status: each counts its own failures, and all write the state. -/
namespace MailKeep
open Program Backend

/-- What a task counts of its own rounds, by what it reports in the status. -/
def reported (failures : Nat) : BackendOp → Nat
  | .setStatus _ (.failed _ _) => failures + 1
  | .setStatus _ (.idle _) => 0
  | _ => failures

def BackendOp.Quiet (accountId : AccountId) : BackendOp → Prop
  | setStatus _ (.failed _ _) | setStatus _ (.idle _) => False
  | setStatus id _ => id = accountId
  | _ => True

/-- The failure count a task shows is its own, as far as the threshold goes. -/
def Counts (failures : Nat) (shown : U32) : Prop := min failures FAILURE_ERROR_THRESHOLD.val ≤ shown.val

theorem Counts.next {failures : Nat} {shown : U32} (h : Counts failures shown) :
    Counts (failures + 1) (shown.saturatingAdd 1) := by
  unfold Counts at *
  rw [U32.val_saturatingAdd]
  change min (failures + 1) 5 ≤ min (shown.val + 1) 4294967295
  change min failures 5 ≤ shown.val at h
  omega

/-- A report is about the account of the task, and a failure shows at least the task's own count. -/
def BackendOp.Reports (accountId : AccountId) (failures : Nat) : BackendOp → Prop
  | setStatus id (.failed shown _) => id = accountId ∧ Counts (failures + 1) shown
  | setStatus id _ => id = accountId
  | _ => True

theorem BackendOp.Reports.account {accountId id : AccountId} {failures : Nat} {change : StatusChange}
    (h : (BackendOp.setStatus id change).Reports accountId failures) : id = accountId := by
  cases change with
  | failed _ _ => exact h.1
  | connecting _ | syncing | ingestedMessage | idle _ => exact h

theorem BackendOp.Quiet.reports {accountId : AccountId} {o : BackendOp} (h : o.Quiet accountId) (failures : Nat) :
    o.Reports accountId failures ∧ reported failures o = failures := by
  cases o with
  | setStatus id change =>
    cases change with
    | failed _ _ | idle _ => exact h.elim
    | connecting _ | syncing | ingestedMessage => exact ⟨h, rfl⟩
  | _ => exact ⟨trivial, rfl⟩

section
variable {accountId : AccountId}

private theorem only_ingestFetch (folder : FolderConfig) (serverUidvalidity uid : U32) (body : Bytes)
    (internalDate : Option DateTimeUtc) (flags : List Flag) :
    OnlyAct (BackendOp.Quiet accountId) (ingestFetch accountId folder serverUidvalidity uid body internalDate flags) := by
  have date : OnlyAct (BackendOp.Quiet accountId) (dateOrNow internalDate) := by
    cases internalDate with
    | some date => exact OnlyAct.pure _
    | none => exact OnlyAct.op trivial
  refine OnlyAct.seq date fun _ => OnlyAct.seq ?_ fun _ => OnlyAct.op rfl
  refine OnlyAct.seq (OnlyAct.op trivial) fun _ => OnlyAct.seq (OnlyAct.op trivial) fun _ => ?_
  exact OnlyAct.seq (OnlyAct.op trivial) fun _ => OnlyAct.pure _

private theorem only_ingestAll (folder : FolderConfig) (serverUidvalidity : U32)
    (items : List (Except ImapError Fetch))
    (p : Progress) : OnlyAct (BackendOp.Quiet accountId)
      (ingestAll accountId folder serverUidvalidity items p) := by
  induction items generalizing p with
  | nil => exact OnlyAct.pure _
  | cons item items ih =>
    unfold ingestAll
    split
    · exact OnlyAct.pure _
    · exact OnlyAct.throw _
    · rename_i he
      cases he
      exact OnlyAct.seq (only_ingestFetch _ _ _ _ _ _) fun _ => ih _
    · rename_i he
      cases he
      exact ih _

private theorem only_recordSyncProgress (folderId : FolderId) (uidvalidity lastUid : U32) :
    OnlyAct (BackendOp.Quiet accountId) (recordSyncProgress folderId uidvalidity lastUid) :=
  OnlyAct.seq (OnlyAct.op trivial) fun _ => OnlyAct.op trivial

private theorem only_syncWindow (folder : FolderConfig) (mailbox : Mailbox) (serverUidvalidity fromUid toUid : U32)
    (p : Progress) : OnlyAct (BackendOp.Quiet accountId)
      (syncWindow accountId folder mailbox serverUidvalidity fromUid toUid p) := by
  have fetch : OnlyAct (BackendOp.Quiet accountId) (uidFetch folder mailbox fromUid toUid) := by
    apply OnlyAct.seq (OnlyAct.op trivial)
    intro reply
    cases reply with
    | ok items => exact OnlyAct.pure _
    | error e => exact OnlyAct.throw _
  refine OnlyAct.seq fetch fun items => OnlyAct.seq (only_ingestAll _ _ _ _) fun p => ?_
  dsimp only
  split
  · exact OnlyAct.seq (only_recordSyncProgress _ _ _) fun _ => OnlyAct.pure _
  · exact OnlyAct.pure _

private theorem only_scan (folder : FolderConfig) (mailbox : Mailbox) (serverUidvalidity : U32) (upper : Option U32)
    (rounds : Nat) (fromUid : U32) (p : Progress) :
    OnlyAct (BackendOp.Quiet accountId) (scan accountId folder mailbox serverUidvalidity upper rounds fromUid p) := by
  induction rounds generalizing fromUid p with
  | zero => exact OnlyAct.pure _
  | succ rounds ih =>
    apply OnlyAct.seq (only_syncWindow _ _ _ _ _ _)
    intro p
    split
    · exact OnlyAct.pure _
    · exact ih _ _

private theorem only_syncFrom (folder : FolderConfig) (mailbox : Mailbox) (serverUidvalidity lastUid : U32) :
    OnlyAct (BackendOp.Quiet accountId) (syncFrom accountId folder mailbox serverUidvalidity lastUid) := by
  refine OnlyAct.seq (OnlyAct.op rfl) fun _ => ?_
  dsimp only
  split
  · exact OnlyAct.seq (only_recordSyncProgress _ _ _) fun _ => OnlyAct.pure _
  · apply OnlyAct.seq (only_scan _ _ _ _ _ _ _)
    intro p
    split
    · exact OnlyAct.seq (only_recordSyncProgress _ _ _) fun _ => OnlyAct.pure _
    · exact OnlyAct.pure _

private theorem only_checkUidvalidity (folder : FolderConfig) (serverUidvalidity : U32) :
    OnlyAct (BackendOp.Quiet accountId) (checkUidvalidity folder serverUidvalidity) := by
  unfold checkUidvalidity
  split
  · refine OnlyAct.seq ?_ fun _ => OnlyAct.pure _
    refine OnlyAct.seq (OnlyAct.op trivial) fun _ => OnlyAct.seq (only_recordSyncProgress _ _ _) fun _ => ?_
    exact OnlyAct.seq (OnlyAct.op trivial) fun _ => OnlyAct.pure _
  · exact OnlyAct.seq (OnlyAct.op trivial) fun _ => OnlyAct.pure _

private theorem only_selectFolder (folder : FolderConfig) :
    OnlyAct (BackendOp.Quiet accountId) (selectFolder folder) := by
  apply OnlyAct.seq (OnlyAct.op trivial)
  intro reply
  rcases reply with (_ | _) | mailbox
  · exact OnlyAct.throw _
  · exact OnlyAct.throw _
  · exact OnlyAct.pure _

/-- A pass over a folder reports no outcome. -/
private theorem syncFolder_quiet (folder : FolderConfig) : OnlyAct (BackendOp.Quiet accountId)
    (syncFolder accountId folder) := by
  refine OnlyAct.seq (only_selectFolder _) fun mailbox => OnlyAct.seq ?_ fun serverUidvalidity => ?_
  · unfold serverUidvalidity
    split
    · exact OnlyAct.pure _
    · exact OnlyAct.throw _
  · exact OnlyAct.seq (only_checkUidvalidity _ _) fun lastUid => only_syncFrom _ _ _ _

private theorem only_connectAndLogin : OnlyAct (BackendOp.Quiet accountId) connectAndLogin := OnlyAct.op trivial

private theorem only_pollFolders (folders : List FolderConfig) :
    OnlyAct (BackendOp.Quiet accountId) (pollFolders accountId folders) := by
  induction folders with
  | nil => exact OnlyAct.pure _
  | cons folder folders ih =>
    apply OnlyAct.seq (OnlyAct.op trivial)
    intro cancelled
    split
    · exact OnlyAct.pure _
    · apply OnlyAct.seq (OnlyAct.attempt (syncFolder_quiet folder))
      intro r
      cases r with
      | ok _ => exact OnlyAct.seq (OnlyAct.op trivial) fun _ => ih
      | error e =>
        cases e
        case folderNotFound => exact ih
        all_goals exact OnlyAct.throw _

private theorem only_pollPass (folders : List FolderConfig) :
    OnlyAct (BackendOp.Quiet accountId) (pollPass accountId folders) := by
  refine OnlyAct.seq only_connectAndLogin fun _ => OnlyAct.seq (only_pollFolders folders) fun _ => ?_
  exact OnlyAct.op trivial

end

section
variable {ι : Type} {computeHash : Bytes → ContentHash} {accountId : AccountId} {i : ι} {n : Nat}

def countPlaces (ι : Type) (computeHash : Bytes → ContentHash) (accountId : AccountId) :
    Discipline (backend computeHash) ι Nat where
  start := 0
  ready _ n o := o.Reports accountId n
  after n o _ := reported n o
  done _ := True

/-- The action reports as the counts have it, and leaves a result and a count in `post`. -/
private structure Tallied (ι : Type) (computeHash : Bytes → ContentHash) (accountId : AccountId) (i : ι) (n : Nat)
    (post : α → Nat → Prop) (x : BackendAction α) : Prop where
  leads : (countPlaces ι computeHash accountId).Leads i (fun r q => ∀ a, r = .ok a → post a q) n x.run

private theorem Tallied.seq {mid : α → Nat → Prop} {post : β → Nat → Prop} {x : BackendAction α}
    {f : α → BackendAction β}
    (hx : Tallied ι computeHash accountId i n mid x)
    (hf : ∀ a q, mid a q → Tallied ι computeHash accountId i q post (f a)) :
    Tallied ι computeHash accountId i n post (x >>= f) := by
  refine ⟨Discipline.Leads.seq (Discipline.Leads.weaken hx.leads fun r q hq => ?_)⟩
  cases r with
  | ok a => exact (hf a q (hq a rfl)).leads
  | error e => exact fun a h => (by cases h)

private theorem Tallied.quiet {x : BackendAction α} (h : OnlyAct (BackendOp.Quiet accountId) x) :
    Tallied ι computeHash accountId i n (fun _ q => q = n) x :=
  ⟨Discipline.Leads.weaken (Discipline.Leads.stay h fun q _ quiet => ⟨(quiet.reports q).1, fun _ => (quiet.reports q).2⟩)
    fun _ _ hq _ _ => hq⟩

private theorem Tallied.pure {post : α → Nat → Prop} {a : α} (h : post a n) :
    Tallied ι computeHash accountId i n post (pure a : BackendAction α) :=
  ⟨fun _ ha => Except.ok.inj ha ▸ h⟩

private theorem Tallied.report {o : BackendOp} (h : o.Reports accountId n) :
    Tallied ι computeHash accountId i n (fun _ q => q = reported n o) (perform o) :=
  ⟨h, fun _ _ _ => rfl⟩

private theorem tallied_sleep {γ : Type} {post : Option γ → Nat → Prop} {wait : Nat}
    {r : γ} (ended : post none n) (goes : post (some r) n) :
    Tallied ι computeHash accountId i n post (do
      if ← perform (.sleep wait) then return none else return some r : BackendAction (Option γ)) := by
  refine Tallied.seq (Tallied.quiet (OnlyAct.op trivial)) fun b q hq => ?_
  subst hq
  cases b with
  | true => exact Tallied.pure ended
  | false => exact Tallied.pure goes

private theorem tallied_noteFailure {failures : U32} {e : Error} (h : Counts n failures) :
    Tallied ι computeHash accountId i n (fun shown q => Counts q shown) (noteFailure accountId failures e) := by
  refine Tallied.seq (Tallied.report (o := .setStatus accountId (.failed (failures.saturatingAdd 1) e.text)) ⟨rfl, h.next⟩)
    fun _ q hq => Tallied.pure ?_
  subst hq
  exact h.next

private theorem tallied_idle {x : BackendAction β} {post : β → Nat → Prop}
    (hx : Tallied ι computeHash accountId i 0 post x) : Tallied ι computeHash accountId i n post (do
      perform (.setStatus accountId (.idle (← perform .now)))
      x) := by
  refine Tallied.seq (Tallied.quiet (OnlyAct.op trivial)) fun now q _ => ?_
  apply Tallied.seq (Tallied.report (o := .setStatus accountId (.idle now)) rfl)
  intro _ q hq
  subst hq
  exact hx

private theorem tallied_connecting {x : BackendAction β} {post : β → Nat → Prop}
    (hx : Tallied ι computeHash accountId i n post x) : Tallied ι computeHash accountId i n post (do
      perform (.setStatus accountId (.connecting (← perform .now)))
      x) := by
  refine Tallied.seq (Tallied.quiet (OnlyAct.op trivial)) fun now q hq => ?_
  subst hq
  refine Tallied.seq (Tallied.quiet (OnlyAct.op rfl)) fun _ q hq => ?_
  subst hq
  exact hx

private def NextPoll (r : Option U32) (q : Nat) : Prop := ∀ failures, r = some failures → Counts q failures

private theorem tallied_pollRound {foldersCfg : List FolderConfig} {pollInterval : Nat} {failures : U32}
    (h : Counts n failures) :
    Tallied ι computeHash accountId i n NextPoll (pollRound accountId foldersCfg pollInterval failures) := by
  refine tallied_connecting (Tallied.seq (Tallied.quiet (OnlyAct.attempt (only_pollPass foldersCfg))) fun r q hq => ?_)
  subst hq
  cases r with
  | ok _ =>
    refine tallied_idle (tallied_sleep (fun _ h => (by cases h)) fun _ h => ?_)
    cases h
    exact Nat.zero_le _
  | error e =>
    refine Tallied.seq (tallied_noteFailure h) fun shown q counts => tallied_sleep
      (fun _ h => (by cases h)) fun _ h => ?_
    cases h
    exact counts

private def NextIdle (r : Option IdleState) (q : Nat) : Prop := ∀ st, r = some st → Counts q st.failures

private theorem tallied_idleReconnect {failures : U32} {e : Error} (h : Counts n failures) :
    Tallied ι computeHash accountId i n NextIdle (idleReconnect accountId failures e) := by
  refine Tallied.seq (tallied_noteFailure h) fun shown q counts => tallied_sleep
    (fun _ h => (by cases h)) fun _ h => ?_
  cases h
  exact counts

private theorem tallied_stop : Tallied ι computeHash accountId i n NextIdle (do
    perform .logout
    return none) :=
  Tallied.seq (Tallied.quiet (OnlyAct.op trivial)) fun _ _ _ => Tallied.pure fun _ h => (by cases h)

private theorem tallied_park {cur : FolderConfig} : Tallied ι computeHash accountId i n NextIdle
    (park accountId cur) := by
  refine tallied_idle (Tallied.seq (Tallied.quiet (OnlyAct.op trivial)) fun outcome q hq => ?_)
  subst hq
  cases outcome with
  | woken =>
    apply Tallied.pure
    intro _ h
    cases h
    exact Nat.zero_le _
  | cancelled => exact tallied_stop
  | failed error => exact tallied_idleReconnect (Nat.zero_le _)

private theorem tallied_idleRound {folder : FolderConfig} {st : IdleState} (h : Counts n st.failures) :
    Tallied ι computeHash accountId i n NextIdle (idleRound accountId folder st) := by
  obtain ⟨failures, cur⟩ := st
  refine Tallied.seq (Tallied.quiet (OnlyAct.op trivial)) fun cancelled q hq => ?_
  subst hq
  cases cancelled with
  | true =>
    cases cur with
    | none => exact Tallied.pure fun _ h => (by cases h)
    | some cur => exact tallied_stop
  | false =>
    cases cur with
    | none =>
      refine tallied_connecting (Tallied.seq (Tallied.quiet (OnlyAct.attempt only_connectAndLogin)) fun r q hq => ?_)
      subst hq
      cases r with
      | ok _ =>
        apply Tallied.pure
        intro _ h'
        cases h'
        exact h
      | error e => exact tallied_idleReconnect h
    | some cur =>
      apply Tallied.seq (Tallied.quiet (OnlyAct.attempt (syncFolder_quiet cur)))
      intro r q hq
      subst hq
      cases r with
      | ok r => exact Tallied.seq (Tallied.quiet (OnlyAct.op trivial)) fun _ _ _ => tallied_park
      | error e => exact tallied_idleReconnect h

def SyncTask.failures : (task : SyncTask) → task.State → U32
  | .poll _ _, failures => failures
  | .idle _, st => st.failures

/-- A round reports as the counts have it, and the next one goes on with the count it has come to. -/
theorem SyncTask.round_counts {task : SyncTask} {st : task.State} (h : Counts n (task.failures st)) :
    (countPlaces ι computeHash accountId).Leads i (fun r q => ∀ st', r = some st' → Counts q (task.failures st')) n
      (task.round accountId st) := by
  cases task with
  | poll foldersCfg pollInterval =>
    refine Discipline.Leads.bind (Discipline.Leads.weaken (tallied_pollRound h).leads fun r q hq st' hst => ?_)
    cases r with
    | ok r => exact hq r rfl st' hst
    | error e => cases hst
  | idle folder =>
    refine Discipline.Leads.bind (Discipline.Leads.weaken (tallied_idleRound h).leads fun r q hq st' hst => ?_)
    cases r with
    | ok r => exact hq r rfl st' hst
    | error e => cases hst

end
end MailKeep
