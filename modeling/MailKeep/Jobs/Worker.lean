import MailKeep.Database.Jobs
import MailKeep.Database.Error
import MailKeep.Program.Machine

/-! The job workers and the calls that enqueue jobs, over the queue they share. -/
namespace MailKeep
open Program

inductive Report
  | complete
  | fail (error : String)
  | failTerminal (error : String)
deriving DecidableEq

def Report.body (now : DateTimeUtc) (job : Job) : Report → Transaction Job
  | complete => JobRepository.complete now job
  | fail error => JobRepository.fail now job error
  | failTerminal error => JobRepository.failTerminal now job error

/-- A report leaves the job where nobody works at it: finished, or waiting for an attempt it still has. -/
structure Report.Leaves (now : DateTimeUtc) (job after : Job) : Prop where
  id : after.id = job.id
  idle : after.status ≠ .running
  attempt : after.attempt = job.attempt
  maxAttempts : after.maxAttempts = job.maxAttempts
  retry : after.status = .pending → job.attempt < job.maxAttempts ∧
    after.scheduledAt = now + JobRepository.backoff job.attempt

/-- A report that goes through rewrites the row the worker holds. -/
theorem Report.body_ok {r : Report} {now : DateTimeUtc} {job updated : Job} {db db' : Database} (hj : job ∈ db.jobs)
    (h : r.body now job db = .ok (updated, db')) : ∃ f, Job.Rewritten f job db db' ∧
      Report.Leaves now job (f job) := by
  have held : ∀ {name f hf}, JobRepository.finish name job f hf db = .ok (updated, db') →
      Job.Rewritten f job db db' := by
    intro name f hf h
    obtain ⟨j, hid, -, -, hw⟩ := JobRepository.finish_ok h
    exact Keyed.Table.eq_of_key hw.mem hj hid ▸ hw
  cases r with
  | complete => exact ⟨_, held h, rfl, by simp [Job.completed], rfl, rfl, by simp [Job.completed]⟩
  | failTerminal error => exact ⟨_, held h, rfl, by simp [Job.failed], rfl, rfl, by simp [Job.failed]⟩
  | fail error =>
    change JobRepository.fail now job error db = _ at h
    unfold JobRepository.fail at h
    split at h
    · rename_i more
      exact ⟨_, held h, rfl, by simp [Job.rescheduled], rfl, rfl, fun _ => ⟨more, rfl⟩⟩
    · exact ⟨_, held h, rfl, by simp [Job.failed], rfl, rfl, by simp [Job.failed]⟩

/-- On a row that stands as the worker has it there is no version conflict. -/
theorem Report.body_of_mem (r : Report) (now : DateTimeUtc) {job : Job} {db : Database} (hj : job ∈ db.jobs) :
    ∃ updated db', r.body now job db = .ok (updated, db') := by
  cases r with
  | complete => exact ⟨_, JobRepository.finish_of_mem hj⟩
  | failTerminal error => exact ⟨_, JobRepository.finish_of_mem hj⟩
  | fail error =>
    change ∃ updated db', JobRepository.fail now job error db = .ok (updated, db')
    unfold JobRepository.fail
    split
    · exact ⟨_, JobRepository.finish_of_mem hj⟩
    · exact ⟨_, JobRepository.finish_of_mem hj⟩

/-- What the workers and the callers of `enqueue` share. A worker's entry in `waiting` says whether it
has enabled a notification, and whether that one has fired. The last four fields are a history; a job
enqueued stands there with its time. -/
structure Queue (ι : Type) where
  db : Database
  clock : DateTimeUtc
  started : Bool
  waiting : ι → Option Bool
  enqueued : List (DateTimeUtc × Job)
  notified : List JobId
  dispatched : List JobId
  unreported : List JobId

inductive JobOp (ι : Type)
  | isShutdownRequested
  | enable (me : ι)
  | claimNext
  | dispatch (job : Job)
  | report (job : Job) (r : Report)
  | wait (me : ι)
  | pause
  | enqueue (jobType : String) (payload : ParseMessageJob) (priority : Int) (delay : Int)
  /-- Wakes the waiters; the id is of the job it is called for. -/
  | notifyWaiters (jobId : JobId)

inductive WaitOutcome
  | shutdown
  | notified
  | timeout

abbrev JobOp.Value : JobOp ι → Type
  | isShutdownRequested | wait _ | pause => Bool
  | enable _ | notifyWaiters _ => Unit
  | claimNext => Except Error (Option Job)
  | dispatch _ => Except Error Unit
  | report _ _ | enqueue _ _ _ _ => Except Error Job

/-- Transactions may fail, and read the clock; handlers answer what they like. -/
abbrev JobOp.Choice : JobOp ι → Type
  | isShutdownRequested | pause => Bool
  | wait _ => WaitOutcome
  | enable _ | notifyWaiters _ => Unit
  | dispatch _ => Except Error Unit
  | claimNext | report _ _ | enqueue _ _ _ _ => Except DbErr DateTimeUtc

abbrev jobSignature (ι : Type) : Signature := ⟨JobOp ι, JobOp.Value⟩

namespace Queue
variable {ι : Type}

/-- A transaction at the time it reads: it commits, or leaves the store as it was. -/
def transact (s : Queue ι) (body : DateTimeUtc → Transaction α) :
    Except DbErr DateTimeUtc → Except Error α × Queue ι
  | .error e => (.error (.repositoryError (handleDberr e)), s)
  | .ok now =>
    match body now s.db with
    | .error e => (.error e, { s with clock := now })
    | .ok (a, db) => (.ok a, { s with db := db, clock := now })

/-- A transaction commits, or the store is as it was. -/
theorem transact_cases (s : Queue ι) (body : DateTimeUtc → Transaction α) (c : Except DbErr DateTimeUtc) :
    (∃ e, c = .error e ∧ s.transact body c = (.error (.repositoryError (handleDberr e)), s)) ∨
      ∃ now, c = .ok now ∧ ((∃ e, body now s.db = .error e ∧ s.transact body c = (.error e, { s with clock := now })) ∨
        ∃ a db, body now s.db = .ok (a, db) ∧ s.transact body c = (.ok a, { s with db := db, clock := now })) := by
  cases c with
  | error e => exact .inl ⟨e, rfl, rfl⟩
  | ok now =>
    refine .inr ⟨now, rfl, ?_⟩
    cases h : body now s.db with
    | error e => exact .inl ⟨e, rfl, by simp only [transact, h]⟩
    | ok p => exact .inr ⟨p.1, p.2, rfl, by simp only [transact, h]⟩

/-- The history knows the reports that failed. -/
def noteReport (job : Job) : Except Error Job × Queue ι → Except Error Job × Queue ι
  | (.ok updated, s) => (.ok updated, s)
  | (.error e, s) => (.error e, { s with unreported := job.id :: s.unreported })

def noteEnqueued : Except Error Job × Queue ι → Except Error Job × Queue ι
  | (.ok job, s) => (.ok job, { s with enqueued := (s.clock, job) :: s.enqueued })
  | (.error e, s) => (.error e, s)

def setWaiting [DecidableEq ι] (s : Queue ι) (me : ι) (fired : Option Bool) : Queue ι :=
  { s with waiting := Function.update s.waiting me fired }

/-- `notify_waiters` fires every notification that is enabled, and stores nothing for later ones. -/
def notify (s : Queue ι) (jobId : JobId) : Queue ι :=
  { s with waiting := fun i => (s.waiting i).map fun _ => true, notified := jobId :: s.notified }

end Queue

/-- The queue as a machine; `registered` are the job types that have a handler. -/
abbrev jobQueue (ι : Type) [DecidableEq ι] (registered : String → Bool) : Machine where
  toSignature := jobSignature ι
  State := Queue ι
  Choice := JobOp.Choice
  exec
    | .isShutdownRequested, b, s => (b, s)
    | .enable me, _, s => ((), s.setWaiting me (some false))
    | .claimNext, c, s => s.transact JobRepository.claimNext c
    | .dispatch job, result, s =>
      (if registered job.jobType then result
        else .error (.infrastructure ("no handler registered for job type '" ++ job.jobType ++ "'")),
        { s with dispatched := job.id :: s.dispatched })
    | .report job r, c, s => Queue.noteReport job (s.transact (r.body · job) c)
    | .wait me, outcome, s => (match outcome with | .shutdown => true | _ => false, s.setWaiting me none)
    | .pause, shutdown, s => (shutdown, s)
    | .enqueue jobType payload priority delay, c, s =>
      Queue.noteEnqueued (s.transact (JobRepository.enqueueDelayed · jobType payload priority delay) c)
    | .notifyWaiters jobId, _, s => ((), s.notify jobId)

/-- A transaction reads a time that may follow the last one read, and a wait ends as notified only where
the notification has fired. -/
def queueAllowed {ι : Type} [DecidableEq ι] (registered : String → Bool)
    (follows : DateTimeUtc → DateTimeUtc → Prop) :
    (jobQueue ι registered).Allowed
  | s, .claimNext, .ok now | s, .report _ _, .ok now | s, .enqueue _ _ _ _, .ok now => follows s.clock now
  | s, .wait me, .notified => s.waiting me = some true
  | _, _, _ => True

/-- What a round of a worker or a call of `enqueue` comes to. -/
inductive RoundEnd
  | again
  | stopped
  | ended (e : Error)
  | enqueued (r : Except Error JobId)

abbrev JobProg (ι α : Type) := Prog (jobSignature ι) α

section
variable {ι : Type}

def ask (o : JobOp ι) : JobProg ι o.Value := .call o .ret

def pauseRound : JobProg ι RoundEnd := do
  if ← ask .pause then return .stopped else return .again

/-- A database outage is waited out; any other error ends the worker. -/
def afterError (e : Error) : JobProg ι RoundEnd :=
  if e.isTransient then pauseRound else return .ended e

def reportOutcome (job : Job) (r : Report) : JobProg ι RoundEnd := do
  match ← ask (.report job r) with
  | .ok _ => return .again
  | .error e => afterError e

def handleJob (job : Job) : JobProg ι RoundEnd := do
  match ← ask (.dispatch job) with
  | .ok () => reportOutcome job .complete
  | .error e => reportOutcome job (if e.isTransient then .fail e.text else .failTerminal e.text)

/-- One turn of the loop of `JobWorker::run`. -/
def workerRound (me : ι) : JobProg ι RoundEnd := do
  if ← ask .isShutdownRequested then return .stopped
  else
    ask (.enable me)
    match ← ask .claimNext with
    | .error e => afterError e
    | .ok (some job) => handleJob job
    | .ok none => if ← ask (.wait me) then return .stopped else return .again

def enqueueRawDelayed (jobType : String) (payload : ParseMessageJob) (priority delay : Int) :
    JobProg ι RoundEnd := do
  match ← ask (.enqueue jobType payload priority delay) with
  | .error e => return .enqueued (.error e)
  | .ok job =>
    ask (.notifyWaiters job.id)
    return .enqueued (.ok job.id)

def enqueueRaw (jobType : String) (payload : ParseMessageJob) (priority : Int) : JobProg ι RoundEnd :=
  enqueueRawDelayed jobType payload priority 0

variable [DecidableEq ι] {registered : String → Bool}

/-- After a crash nobody waits and no worker runs until the subsystem has started again. -/
def Queue.crashed (s : Queue ι) : Queue ι := { s with started := false, waiting := fun _ => none }

/-- The start of the worker subsystem: what was left running goes back to the queue. -/
def Queue.Boots (s t : Queue ι) : Prop :=
  s.started = false ∧ ∃ n db, JobRepository.resetRunningToPending s.db = .ok (n, db) ∧
    t = { s with db := db, started := true }

def Queue.DeletesOldJobs (s t : Queue ι) : Prop :=
  ∃ cutoff n db, JobRepository.deleteOldJobs cutoff s.db = .ok (n, db) ∧ t = { s with db := db }

/-- Workers and callers of `enqueue`, the subsystem's start, the deletion of old jobs, and crashes where
`crashes` allows them. -/
def jobSystem (registered : String → Bool) (follows : DateTimeUtc → DateTimeUtc → Prop) (crashes : Prop)
    (boots : Queue ι → Prop) : System (jobQueue ι registered) ι RoundEnd where
  allowed := queueAllowed registered follows
  root s i p := s.started = true ∧ p = workerRound i ∨
    ∃ jobType payload priority delay, p = enqueueRawDelayed jobType payload priority delay
  env s t := s.DeletesOldJobs t ∨ s.Boots t ∧ boots s
  crash s t := crashes ∧ t = s.crashed

end

/-- A queue to run on: one job waits, and an environment in which nothing fails. -/
def waitingJob : Job where
  id := 0
  jobType := "parse_message"
  payload := ⟨0, 0, 1, 1, ⟨.replicate 32 0⟩, 0, ⟨true, false, false, false, false, false, []⟩⟩
  status := .pending
  priority := PRIORITY_INGEST
  attempt := 0
  maxAttempts := 3
  version := 0
  scheduledAt := 0
  startedAt := none
  completedAt := none
  errorMessage := none

def oneJob : Queue Nat where
  db := ⟨.empty, .empty, .empty, .empty, .empty, ⟨[waitingJob], by simp⟩, 1⟩
  clock := 0
  started := true
  waiting _ := none
  enqueued := []
  notified := []
  dispatched := []
  unreported := []

def noJobs : Queue Nat where
  db := ⟨.empty, .empty, .empty, .empty, .empty, .empty, 0⟩
  clock := 0
  started := true
  waiting _ := none
  enqueued := []
  notified := []
  dispatched := []
  unreported := []

def smoothly : (o : JobOp Nat) → o.Choice
  | .isShutdownRequested | .pause => false
  | .wait _ => .timeout
  | .enable _ | .notifyWaiters _ => ()
  | .dispatch _ => .ok ()
  | .claimNext | .report _ _ | .enqueue _ _ _ _ => .ok 0

theorem smoothly_allowed : ∀ s o, queueAllowed (fun _ => true) (fun _ _ => True) s o (smoothly o) := by
  intro s o
  cases o <;> trivial

def atWork (pick : (o : JobOp Nat) → o.Choice) (p : JobProg Nat RoundEnd) (s : Queue Nat) (n : Nat) :
    Config (jobQueue Nat fun _ => true) Nat RoundEnd :=
  (List.replicate n 0).foldl (fun c i => c.advance pick i) (Config.set (.idle s) s 0 p)

theorem atWork_other (pick : (o : JobOp Nat) → o.Choice) (p : JobProg Nat RoundEnd)
    (s : Queue Nat) (n : Nat) {i : Nat}
    (h : i ≠ 0) : (atWork pick p s n).threads i = none := by
  have idle : (Config.set (.idle s) s 0 p : Config (jobQueue Nat fun _ => true) Nat RoundEnd).threads i = none := by
    rw [Config.set_threads, if_neg h]
    rfl
  unfold atWork
  generalize (Config.set (.idle s) s 0 p : Config (jobQueue Nat fun _ => true) Nat RoundEnd) = c at idle ⊢
  induction n generalizing c with
  | zero => exact idle
  | succ n ih => exact ih _ ((Config.advance_other pick c h).trans idle)

section
variable {follows : DateTimeUtc → DateTimeUtc → Prop} {crashes : Prop} {boots : Queue Nat → Prop}

theorem reaches_atWork {pick : (o : JobOp Nat) → o.Choice}
    (ok : ∀ s o, queueAllowed (fun _ => true) follows s o (pick o)) {p : JobProg Nat RoundEnd} {s : Queue Nat}
    (may : (jobSystem (fun _ => true) follows crashes boots).root s 0 p) (n : Nat) :
    (jobSystem (fun _ => true) follows crashes boots).Reaches (.idle s) (atWork pick p s n) := by
  have begun : (jobSystem (fun _ => true) follows crashes boots).Step (.idle s) (Config.set (.idle s) s 0 p) :=
    .start 0 _ (fun ⟨_, _, h⟩ => by cases h) may
  have worked := @System.reaches_schedule (jobQueue Nat fun _ => true) Nat RoundEnd _
    (jobSystem (fun _ => true) follows crashes boots) (fun _ => pick) (fun _ => ok)
    (Config.set (.idle s) s 0 p) (List.replicate n 0)
  exact (Relation.ReflTransGen.single begun).trans worked

/-- After a crash and the next start. -/
def Queue.restarted (s : Queue Nat) : Queue Nat :=
  { s.crashed with db := s.db.updateJobs (·.status = .running) (·.reset) Job.reset_id, started := true }

theorem reaches_restarted {c : Config (jobQueue Nat fun _ => true) Nat RoundEnd} (boot : boots c.state.crashed) :
    (jobSystem (fun _ => true) follows True boots).Reaches c (.idle c.state.restarted) := by
  have crash : (jobSystem (fun _ => true) follows True boots).Step c (.idle c.state.crashed) :=
    .crash _ ⟨trivial, rfl⟩
  have start : (jobSystem (fun _ => true) follows True boots).Step (.idle c.state.crashed)
      (.idle c.state.restarted) :=
    .outside _ (Or.inr ⟨⟨rfl, _, _, rfl, rfl⟩, boot⟩)
  exact (Relation.ReflTransGen.single crash).tail start

end
end MailKeep
