import MailKeep.Imap.SharedStatus

/-! Whether a task that keeps failing shows in the status, while the other tasks of the account report too. -/
namespace MailKeep
open Program

/-- The tasks of an account over one world, each with what its loop goes on with. `failures` is a
history: how many failures a task has reported since it last reported a success. -/
structure TaskHost {ι : Type} (tasks : ι → SyncTask) where
  world : World
  loop : (i : ι) → Option (tasks i).State
  failures : ι → Nat

inductive TaskOp {ι : Type} (tasks : ι → SyncTask)
  | backend (me : ι) (o : BackendOp)
  | next (me : ι) (st : Option (tasks me).State)

section
variable {ι : Type} {tasks : ι → SyncTask}

abbrev TaskOp.Value : TaskOp tasks → Type
  | backend _ o => o.Value
  | next _ _ => Unit

abbrev TaskOp.Choice : TaskOp tasks → Type
  | backend _ o => o.Choice
  | next _ _ => Unit

abbrev taskSignature (tasks : ι → SyncTask) : Signature := ⟨TaskOp tasks, TaskOp.Value⟩

abbrev taskHost [DecidableEq ι] (computeHash : Bytes → ContentHash) (tasks : ι → SyncTask) : Machine where
  toSignature := taskSignature tasks
  State := TaskHost tasks
  Choice := TaskOp.Choice
  exec
    | .backend me o, c, s =>
      ((backendExec computeHash o c s.world).1,
        { s with
          world := (backendExec computeHash o c s.world).2
          failures := Function.update s.failures me (reported (s.failures me) o) })
    | .next me st, _, s => ((), { s with loop := Function.update s.loop me st })

def TaskHost.started (tasks : ι → SyncTask) (accountId : AccountId) (world : World) : TaskHost tasks where
  world := { world with status := Function.update world.status accountId initialStatus }
  loop i := some (tasks i).start
  failures _ := 0

def roundPart (tasks : ι → SyncTask) (me : ι) : Embedding backendSignature (taskSignature tasks) :=
  ⟨.backend me, fun _ r => r⟩

def SyncTask.roundOf (accountId : AccountId) (tasks : ι → SyncTask) (me : ι) (st : (tasks me).State) :
    Prog (taskSignature tasks) Unit :=
  ((tasks me).round accountId st).embed (roundPart tasks me) >>= fun r => .call (TaskOp.next me r) .ret

/-- The account's tasks go round and round; success is reported where `may` lets a task do it. Whatever
else goes on leaves their status alone, and the account may be started again. -/
def taskSystem [DecidableEq ι] (computeHash : Bytes → ContentHash) (accountId : AccountId) (tasks : ι → SyncTask)
    (may : TaskHost tasks → ι → Prop) : System (taskHost computeHash tasks) ι Unit where
  allowed
    | s, .backend me (.setStatus _ (.idle _)), _ => may s me
    | _, _, _ => True
  root s i p := ∃ st, s.loop i = some st ∧ p = SyncTask.roundOf accountId tasks i st
  env s t := t.world.status accountId = s.world.status accountId ∧ t.loop = s.loop ∧ t.failures = s.failures
  crash _ t := ∃ world, t = TaskHost.started tasks accountId world

/-- A task that has failed often enough in a row keeps the state from reading as idle. -/
def TaskHost.ErrorShown (accountId : AccountId) (s : TaskHost tasks) : Prop :=
  ∀ i, FAILURE_ERROR_THRESHOLD.val ≤ s.failures i → (s.world.status accountId).state ≠ .idle

/-- A task's place: what it has counted, and whether it is between two rounds. -/
structure Counter where
  failures : Nat
  resting : Bool

def taskPlaces [DecidableEq ι] (computeHash : Bytes → ContentHash) (accountId : AccountId) (tasks : ι → SyncTask) :
    Discipline (taskHost computeHash tasks) ι Counter where
  start := ⟨0, true⟩
  ready
    | i, q, .backend me o => me = i ∧ o.Reports accountId q.failures
    | i, q, .next me st => me = i ∧ ∀ st', st = some st' → Counts q.failures ((tasks me).failures st')
  after
    | q, .backend _ o, _ => ⟨reported q.failures o, false⟩
    | q, .next _ _, _ => ⟨q.failures, true⟩
  done q := q.resting = true

/-- The counts are the tasks' own, and none that matters is masked. -/
structure Shown (accountId : AccountId) (s : TaskHost tasks) (places : ι → Counter) : Prop where
  failures : ∀ i, s.failures i = (places i).failures
  loop : ∀ i, (places i).resting = true → ∀ st, s.loop i = some st →
    Counts (places i).failures ((tasks i).failures st)
  shown : s.ErrorShown accountId

end

variable {ι : Type} [DecidableEq ι] {tasks : ι → SyncTask} {computeHash : Bytes → ContentHash}
    {accountId : AccountId}

private theorem SyncTask.roundOf_fits {i : ι} {st : (tasks i).State} {n : Nat} (h : Counts n ((tasks i).failures st)) :
    (taskPlaces computeHash accountId tasks).Fits i ⟨n, false⟩ (SyncTask.roundOf accountId tasks i st) := by
  have counts : (countPlaces ι computeHash accountId).Leads i
      (fun r q => ∀ st', r = some st' → Counts q ((tasks i).failures st')) n ((tasks i).round accountId st) :=
    SyncTask.round_counts h
  have embedded : (taskPlaces computeHash accountId tasks).Leads i
      (fun r q => ∀ st', r = some st' → Counts q.failures ((tasks i).failures st')) ⟨n, false⟩
      (((tasks i).round accountId st).embed (roundPart tasks i)) := by
    refine Discipline.Leads.embed (N := taskHost computeHash tasks) (roundPart tasks i) (Counter.mk · false)
      (fun r q => ∀ st', r = some st' → Counts q.failures ((tasks i).failures st')) ?_ ?_ counts
    · exact fun q o ready => ⟨rfl, ready⟩
    · exact fun q o r => rfl
  exact Discipline.Leads.fits (Discipline.Leads.bind (Discipline.Leads.weaken embedded fun r q h => ⟨⟨rfl, h⟩, fun _ => rfl⟩))

/-- Only the two status writes of the tasks touch the status. -/
private theorem exec_status {o : BackendOp} {c : o.Choice} {w : World} (h : ∀ id change, o ≠ .setStatus id change) :
    (backendExec computeHash o c w).2.status = w.status := by
  cases o with
  | setStatus id change => exact absurd rfl (h id change)
  | transact t =>
    rcases w.transact_cases t c with ⟨e, he⟩ | ⟨d, r, db, -, -, hok⟩
    · exact congrArg (fun x => x.2.status) he
    · exact congrArg (fun x => x.2.status) hok
  | connect | select _ => cases c <;> rfl
  | getRaw _ _ => cases c <;> rfl
  | _ => rfl

/-- What a report makes of the state. -/
private theorem applied_state (change : StatusChange) (st : SyncStatus) :
    (change.apply st).state = match change with
      | .connecting _ => .connecting
      | .syncing => .syncing
      | .ingestedMessage => st.state
      | .idle _ => .idle
      | .failed failures _ => if FAILURE_ERROR_THRESHOLD ≤ failures then .error else st.state := by
  cases change <;> rfl

/-- A report keeps the error shown, where success is not reported over the failures of another task. -/
private theorem reported_shown {s : TaskHost tasks} {me : ι} {change : StatusChange}
    (shown : s.ErrorShown accountId) (reports : (BackendOp.setStatus accountId change).Reports accountId (s.failures me))
    (ok : ∀ now, change = .idle now → ∀ j, j ≠ me → s.failures j < FAILURE_ERROR_THRESHOLD.val) {i : ι}
    (failing : FAILURE_ERROR_THRESHOLD.val ≤ Function.update s.failures me (reported (s.failures me) (.setStatus accountId change)) i) :
    (change.apply (s.world.status accountId)).state ≠ .idle := by
  rw [applied_state]
  rw [Function.update_apply] at failing
  cases change with
  | connecting now => nofun
  | syncing => nofun
  | ingestedMessage =>
    split at failing
    · exact shown me failing
    · exact shown i failing
  | idle now =>
    split at failing
    · cases failing
    · rename_i other
      exact absurd (ok now rfl i other) (Nat.not_lt.mpr failing)
  | failed count error =>
    dsimp only
    split
    · nofun
    · rename_i few
      split at failing
      · refine absurd ?_ few
        have counts := reports.2
        change min (s.failures me + 1) 5 ≤ count.val at counts
        change 5 ≤ s.failures me + 1 at failing
        exact Fin.le_def.mpr (show 5 ≤ count.val by omega)
      · exact shown i failing

/-- A task's operation: the task counts what it reports. -/
private theorem shown_backend {s : TaskHost tasks} {places : ι → Counter} {i : ι} {o : BackendOp} {c : o.Choice}
    (h : Shown accountId s places) (reports : o.Reports accountId (places i).failures)
    (ok : ∀ id now, o = .setStatus id (.idle now) → ∀ j, j ≠ i → s.failures j < FAILURE_ERROR_THRESHOLD.val) :
    Shown accountId ((taskHost computeHash tasks).exec (.backend i o) c s).2
      (Function.update places i ⟨reported (places i).failures o, false⟩) where
  failures j := by
    change Function.update s.failures i _ j = _
    by_cases same : j = i
    · subst same
      rw [Function.update_self, Function.update_self, h.failures]
    · rw [Function.update_of_ne same, Function.update_of_ne same]
      exact h.failures j
  loop j hj st hst := by
    rw [Function.update_apply] at hj ⊢
    split at hj
    · cases hj
    · rename_i other
      rw [if_neg other]
      exact h.loop j hj st hst
  shown j failing := by
    change ((backendExec computeHash o c s.world).2.status accountId).state ≠ .idle
    change _ ≤ Function.update s.failures i (reported (s.failures i) o) j at failing
    rw [← h.failures i] at reports
    by_cases status : ∃ id change, o = .setStatus id change
    · obtain ⟨id, change, rfl⟩ := status
      obtain rfl : id = accountId := reports.account
      change (Function.update s.world.status id (change.apply (s.world.status id)) id).state ≠ .idle
      rw [Function.update_self]
      exact reported_shown h.shown reports (fun now hc => ok id now (hc ▸ rfl)) failing
    · rw [exec_status fun id change ho => status ⟨id, change, ho⟩]
      have quiet : reported (s.failures i) o = s.failures i := by
        cases o with
        | setStatus id change => exact absurd ⟨id, change, rfl⟩ status
        | _ => rfl
      rw [quiet, Function.update_eq_self] at failing
      exact h.shown j failing

/-- The end of a round. -/
private theorem shown_next {s : TaskHost tasks} {places : ι → Counter} {i : ι} {st : Option (tasks i).State}
    (h : Shown accountId s places) (counts : ∀ st', st = some st' → Counts (places i).failures ((tasks i).failures st')) :
    Shown accountId { s with loop := Function.update s.loop i st }
      (Function.update places i ⟨(places i).failures, true⟩) where
  failures j := by
    apply (h.failures j).trans
    rw [Function.update_apply]
    split
    · rename_i same
      rw [same]
    · rfl
  loop j hj st' hst := by
    by_cases same : j = i
    · subst same
      rw [Function.update_self]
      exact counts st' ((Function.update_self j st s.loop).symm.trans hst)
    · rw [Function.update_of_ne same] at hj ⊢
      exact h.loop j hj st' ((Function.update_of_ne same st s.loop).symm.trans hst)
  shown := h.shown

private theorem taskSystem_shown : (taskPlaces computeHash accountId tasks).Keeps
    (taskSystem computeHash accountId tasks
    fun s me => ∀ j, j ≠ me → s.failures j < FAILURE_ERROR_THRESHOLD.val) (Shown accountId) where
  begins s places i p h root idle := by
    obtain ⟨st, hst, rfl⟩ := root
    have resting : (places i).resting = true := by
      rcases idle with idle | idle
      · rw [idle]
        rfl
      · exact idle
    refine ⟨⟨(places i).failures, false⟩, SyncTask.roundOf_fits (h.loop i resting st hst), fun j => ?_, fun j hj st hst => ?_, h.shown⟩
    · rw [h.failures, Function.update_apply]
      split
      · rename_i same
        rw [same]
      · rfl
    · rw [Function.update_apply] at hj ⊢
      split at hj
      · cases hj
      · rename_i other
        rw [if_neg other]
        exact h.loop j hj st hst
  op s places i o c h ready ok := by
    cases o with
    | backend me o =>
      obtain ⟨rfl, reports⟩ := ready
      apply shown_backend h reports
      intro id now ho
      subst ho
      exact ok
    | next me st =>
      obtain ⟨rfl, counts⟩ := ready
      exact shown_next h counts
  env s t places h outside := by
    obtain ⟨status, loop, failures⟩ := outside
    exact ⟨fun i => failures ▸ h.failures i, fun i hi st hst => h.loop i hi st (loop ▸ hst),
      fun i hi => status ▸ h.shown i (failures ▸ hi)⟩
  crash s t places _ crash := by
    obtain ⟨world, rfl⟩ := crash
    refine ⟨fun _ => rfl, fun i _ st hst => ?_, fun i hi => (by cases hi)⟩
    exact Nat.zero_le _

omit [DecidableEq ι] in
private theorem shown_started (world : World) : Shown accountId (TaskHost.started tasks accountId world)
    fun _ => ⟨0, true⟩ where
  failures _ := rfl
  loop i _ st hst := Nat.zero_le _
  shown i hi := by cases hi

/-- In every run in which no task reports success over the persistent failures of another, a persistent
failure shows; and a report of success masks one just where another task has failed often enough. -/
theorem error_not_masked {world : World} {c : Config (taskHost computeHash tasks) ι Unit}
    (run : (taskSystem computeHash accountId tasks fun s me => ∀ j, j ≠ me → s.failures j < FAILURE_ERROR_THRESHOLD.val).Reaches
      (.idle (TaskHost.started tasks accountId world)) c) :
    c.state.ErrorShown accountId ∧
      ∀ i me id now next, c.threads i = some (.call (TaskOp.backend me (.setStatus id (.idle now))) next) →
        (((taskHost computeHash tasks).exec (TaskOp.backend me (.setStatus id (.idle now))) () c.state).2.ErrorShown accountId ↔
          ∀ j, j ≠ me → c.state.failures j < FAILURE_ERROR_THRESHOLD.val) := by
  obtain ⟨places, linked, shown⟩ := taskSystem_shown.reaches
    (Discipline.linked_idle (taskPlaces computeHash accountId tasks) _) (shown_started world) run
  refine ⟨shown.shown, fun i me id now next at_report => ⟨fun after j other => ?_, fun few => ?_⟩⟩
  · obtain ⟨⟨rfl, reports⟩, -⟩ := (linked i).1 _ at_report
    obtain rfl : id = accountId := reports.account
    by_contra failing
    refine after j ?_ ?_
    · change _ ≤ Function.update c.state.failures me _ j
      rw [Function.update_of_ne other]
      exact Nat.not_lt.mp failing
    · change (Function.update c.state.world.status id _ id).state = .idle
      rw [Function.update_self]
      rfl
  · obtain ⟨⟨rfl, reports⟩, -⟩ := (linked i).1 _ at_report
    exact (shown_backend shown reports fun _ _ _ => few).shown

inductive Lane
  | poll
  | idle
deriving DecidableEq

def lanes : Lane → SyncTask
  | .poll => .poll [⟨8, "Archive", false, none, 0⟩] 300
  | .idle => .idle ⟨7, "INBOX", true, some 4, 0⟩

abbrev lanesHost := taskHost firstByte lanes

abbrev lanesSystem (may : TaskHost lanes → Lane → Prop) := taskSystem firstByte 1 lanes may

def refused (lane : Lane) : (o : TaskOp lanes) → o.Choice
  | .backend _ .connect =>
    match lane with
    | .poll => .error (.infrastructure "connection refused")
    | .idle => .ok ()
  | .backend _ o => calm ⟨some 4, some 1⟩ (fun _ _ => []) 1 o
  | .next _ _ => ()

def playRound (c : Config lanesHost Lane Unit) (turn : Lane × Nat) : Config lanesHost Lane Unit :=
  match c.state.loop turn.1 with
  | some st =>
    (List.replicate turn.2 turn.1).foldl (fun c i => c.advance (refused i) i)
      (c.set c.state turn.1 (SyncTask.roundOf 1 lanes turn.1 st))
  | none => c

def lanesStarted : Config lanesHost Lane Unit := .idle (TaskHost.started lanes 1 (inboxWorld (some 4) 0))

private def rests (c : Config lanesHost Lane Unit) (lane : Lane) : Bool :=
  match c.threads lane with
  | some (.call _ _) => false
  | _ => true

private theorem playRound_reaches {may : TaskHost lanes → Lane → Prop} {c : Config lanesHost Lane Unit}
    {turn : Lane × Nat}
    (rest : rests c turn.1 = true) (permits : ∀ st, (lanesSystem may).Permits refused
      (c.set c.state turn.1 (SyncTask.roundOf 1 lanes turn.1 st)) (List.replicate turn.2 turn.1)) :
    (lanesSystem may).Reaches c (playRound c turn) := by
  unfold playRound
  split
  · rename_i st hst
    refine .head (.start turn.1 _ ?_ ⟨st, hst, rfl⟩) (permits st).reaches
    rintro ⟨o, next, busy⟩
    rw [rests, busy] at rest
    cases rest
  · exact .refl

/-- The poll task fails to connect so many times in a row. -/
def failedPolls : Nat → Config lanesHost Lane Unit
  | 0 => lanesStarted
  | n + 1 => playRound (failedPolls n) (.poll, 6)

/-- No round that fails to connect reports success. -/
private theorem refused_permits {may : TaskHost lanes → Lane → Prop} (c : Config lanesHost Lane Unit)
    (st : (lanes .poll).State) :
    (lanesSystem may).Permits refused (c.set c.state .poll (SyncTask.roundOf 1 lanes .poll st))
      (List.replicate 6 .poll) :=
  ⟨trivial, trivial, trivial, trivial, trivial, trivial, trivial⟩

private theorem failedPolls_reached (may : TaskHost lanes → Lane → Prop) :
    (lanesSystem may).Reaches lanesStarted (failedPolls 5) := by
  have round (n : Nat) (rest : rests (failedPolls n) .poll = true) :
      (lanesSystem may).Reaches (failedPolls n) (failedPolls (n + 1)) :=
    playRound_reaches rest (refused_permits _)
  have first := round 0 (by decide +kernel)
  have second := round 1 (by decide +kernel)
  have third := round 2 (by decide +kernel)
  have fourth := round 3 (by decide +kernel)
  have fifth := round 4 (by decide +kernel)
  exact (((first.trans second).trans third).trans fourth).trans fifth

/-- After the fifth failure the error shows. -/
theorem error_not_masked_fiveTimes : (failedPolls 5).state.failures .poll = 5 ∧
    ((failedPolls 5).state.world.status 1).state = .error ∧ (failedPolls 5).state.ErrorShown 1 := by
  refine ⟨?_, ?_, (error_not_masked (failedPolls_reached _)).1⟩
  · decide +kernel
  · decide +kernel

/-- The idle task connects and makes a pass: success is the last word, while the poll task has failed five times. -/
theorem error_masked : ∃ c : Config lanesHost Lane Unit, (lanesSystem fun _ _ => True).Reaches lanesStarted c ∧
    FAILURE_ERROR_THRESHOLD.val ≤ c.state.failures .poll ∧ (c.state.world.status 1).state = .idle := by
  have ok : ∀ i s o, (lanesSystem fun _ _ => True).allowed s o (refused i o) := by
    rintro i s (⟨me, o⟩ | ⟨me, st⟩)
    · cases o with
      | setStatus id change => cases change <;> trivial
      | _ => trivial
    · trivial
  have connects : (lanesSystem fun _ _ => True).Reaches (failedPolls 5) (playRound (failedPolls 5) (.idle, 5)) :=
    playRound_reaches (by decide +kernel) fun _ => System.permits_of_allowed ok _ _
  have passes : (lanesSystem fun _ _ => True).Reaches (playRound (failedPolls 5) (.idle, 5))
      (playRound (playRound (failedPolls 5) (.idle, 5)) (.idle, 9)) :=
    playRound_reaches (by decide +kernel) fun _ => System.permits_of_allowed ok _ _
  refine ⟨_, ((failedPolls_reached _).trans connects).trans passes, ?_, ?_⟩
  · decide +kernel
  · decide +kernel

end MailKeep
