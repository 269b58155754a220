import MailKeep.Database.Recording
import MailKeep.Ranked.Page
import Mathlib.Algebra.Group.Int.Defs

/-! The job queue: enqueue, claim, and the three ways a claimed job ends. -/
namespace MailKeep
open Ranked

def PRIORITY_INGEST : Int := 10

/-- Highest priority first, then the earliest schedule, then the lowest id. -/
def claimKey (j : Job) : Lex (Int × Lex (Intᵒᵈ × Natᵒᵈ)) :=
  toLex (j.priority, toLex (OrderDual.toDual j.scheduledAt, OrderDual.toDual j.id))

namespace Job

def claimed (now : DateTimeUtc) (j : Job) : Job :=
  { j with status := .running, attempt := j.attempt + 1, startedAt := some now, version := j.version + 1 }

def completed (now : DateTimeUtc) (j : Job) : Job :=
  { j with status := .completed, completedAt := some now, version := j.version + 1 }

def rescheduled (scheduledAt : DateTimeUtc) (error : String) (j : Job) : Job :=
  { j with status := .pending, scheduledAt := scheduledAt, errorMessage := some error, version := j.version + 1 }

def failed (now : DateTimeUtc) (error : String) (j : Job) : Job :=
  { j with status := .failed, completedAt := some now, errorMessage := some error, version := j.version + 1 }

def reset (j : Job) : Job := { j with status := .pending, version := j.version + 1 }

theorem reset_id (j : Job) : j.reset.id = j.id := rfl

end Job

def Database.updateJobs (db : Database) (guard : Job → Bool) (f : Job → Job)
    (hf : ∀ j, (f j).id = j.id) : Database :=
  { db with jobs := db.jobs.update guard f hf }

/-- The store after one job was replaced by what `f` makes of it. -/
structure Job.Rewritten (f : Job → Job) (j : Job) (before after : Database) : Prop where
  mem : j ∈ before.jobs
  rest : after = { before with jobs := after.jobs }
  jobs : ∀ j', j' ∈ after.jobs ↔ j' = f j ∨ j' ∈ before.jobs ∧ j'.id ≠ j.id

theorem Job.Rewritten.nextJobId {f : Job → Job} {j : Job} {before after : Database}
    (h : Job.Rewritten f j before after) :
    after.nextJobId = before.nextJobId := by
  rw [h.rest]

/-- The ids in use stay below the counter. -/
theorem Job.Rewritten.fresh {f : Job → Job} {j : Job} {before after : Database} (h : Job.Rewritten f j before after)
    (same : (f j).id = j.id) (fresh : ∀ j ∈ before.jobs, j.id < before.nextJobId) :
    ∀ j ∈ after.jobs, j.id < after.nextJobId := by
  intro j' hj'
  rw [h.nextJobId]
  rcases (h.jobs j').mp hj' with rfl | ⟨hj', -⟩
  · rw [same]
    exact fresh j h.mem
  · exact fresh j' hj'

namespace JobRepository

def enqueueRaw (now : DateTimeUtc) (jobType : String) (payload : ParseMessageJob) (priority : Int) :
    Transaction Job := fun db =>
  let job : Job := {
    id := db.nextJobId, jobType := jobType, payload := payload, status := .pending, priority := priority
    attempt := 0, maxAttempts := 3, version := 0, scheduledAt := now, startedAt := none, completedAt := none
    errorMessage := none }
  match db.jobs.insert job with
  | none => .error (constraintError "UNIQUE constraint failed: jobs.id")
  | some jobs => .ok (job, { db with jobs := jobs, nextJobId := db.nextJobId + 1 })

def enqueueDelayed (now : DateTimeUtc) (jobType : String) (payload : ParseMessageJob)
    (priority : Int) (delay : Int) :
    Transaction Job := fun db =>
  let job : Job := {
    id := db.nextJobId, jobType := jobType, payload := payload, status := .pending, priority := priority
    attempt := 0, maxAttempts := 3, version := 0, scheduledAt := now + delay, startedAt := none, completedAt := none
    errorMessage := none }
  match db.jobs.insert job with
  | none => .error (constraintError "UNIQUE constraint failed: jobs.id")
  | some jobs => .ok (job, { db with jobs := jobs, nextJobId := db.nextJobId + 1 })

def nextCandidate (now : DateTimeUtc) (db : Database) : Option Job :=
  (sortDesc claimKey (db.jobs.rows.filter fun j => j.status = .pending && decide (j.scheduledAt ≤ now))).head?

/-- Takes the best candidate with an update guarded by its version; tries again where the guard misses. -/
def claimLoop (now : DateTimeUtc) : Nat → Transaction (Option Job)
  | 0 => pure none
  | tries + 1 => fun db =>
    match nextCandidate now db with
    | none => .ok (none, db)
    | some candidate =>
      let guard := fun j : Job => j.id = candidate.id && j.version = candidate.version && j.status = .pending
      let db' := db.updateJobs guard (·.claimed now) fun _ => rfl
      if db.jobs.count guard = 1 then
        match db'.jobs.find? candidate.id with
        | none => .error (.repositoryError .notFound)
        | some job => .ok (some job, db')
      else claimLoop now tries db'

def claimNext (now : DateTimeUtc) : Transaction (Option Job) := claimLoop now 5

def finish (name : String) (job : Job) (f : Job → Job) (hf : ∀ j, (f j).id = j.id) : Transaction Job := fun db =>
  let affected := db.jobs.count fun j => j.id = job.id && j.version = job.version
  if affected ≠ 1 then
    .error (.infrastructure (name ++ "(" ++ toString job.id ++ ") affected " ++ toString affected
      ++ " rows — version conflict or row missing"))
  else
    let db' := db.updateJobs (fun j => j.id = job.id && j.version = job.version) f hf
    match db'.jobs.find? job.id with
    | none => .error (.repositoryError .notFound)
    | some updated => .ok (updated, db')

def complete (now : DateTimeUtc) (job : Job) : Transaction Job := finish "complete" job (·.completed now) fun _ => rfl

/-- `30s * 2^attempt`, the shift capped at 20. -/
def backoff (attempt : Nat) : Int := 30 * 2 ^ min attempt 20 * 1000000000

theorem backoff_pos (attempt : Nat) : 0 < backoff attempt := by
  have power : (0 : Int) < 2 ^ min attempt 20 := Int.pow_pos (by decide)
  unfold backoff
  omega

def fail (now : DateTimeUtc) (job : Job) (error : String) : Transaction Job :=
  if job.attempt < job.maxAttempts then
    finish "fail" job (·.rescheduled (now + backoff job.attempt) error) fun _ => rfl
  else finish "fail" job (·.failed now error) fun _ => rfl

def failTerminal (now : DateTimeUtc) (job : Job) (error : String) : Transaction Job :=
  finish "fail_terminal" job (·.failed now error) fun _ => rfl

/-- Run by the worker subsystem before its workers: what a crash left running waits again. -/
def resetRunningToPending : Transaction Nat := fun db =>
  .ok (db.jobs.count (·.status = .running), db.updateJobs (·.status = .running) (·.reset) Job.reset_id)

def deleteOldJobs (cutoff : DateTimeUtc) : Transaction Nat := fun db =>
  let old := fun j : Job => (j.status = .completed || j.status = .failed) && decide
    (∃ t ∈ j.completedAt, t < cutoff)
  .ok (db.jobs.count old, { db with jobs := db.jobs.filter fun j => !old j })

/-- A job enqueued without a delay is one delayed by nothing. -/
theorem enqueueRaw_eq (now : DateTimeUtc) (jobType : String) (payload : ParseMessageJob) (priority : Int) :
    enqueueRaw now jobType payload priority = enqueueDelayed now jobType payload priority 0 := by
  funext db
  simp only [enqueueRaw, enqueueDelayed, Int.add_zero]

/-- A new job under the next id, which no attempt has been made at. -/
structure Enqueued (now : DateTimeUtc) (delay : Int) (job : Job) (db db' : Database) : Prop where
  id : job.id = db.nextJobId
  pending : job.status = .pending
  attempt : job.attempt = 0
  maxAttempts : job.maxAttempts = 3
  scheduledAt : job.scheduledAt = now + delay
  rest : db' = { db with jobs := db'.jobs, nextJobId := db.nextJobId + 1 }
  jobs : ∀ j, j ∈ db'.jobs ↔ j ∈ db.jobs ∨ j = job

theorem Enqueued.nextJobId {now : DateTimeUtc} {delay : Int} {job : Job} {db db' : Database}
    (h : Enqueued now delay job db db') : db'.nextJobId = db.nextJobId + 1 := by
  rw [h.rest]

theorem Enqueued.fresh {now : DateTimeUtc} {delay : Int} {job : Job} {db db' : Database}
    (h : Enqueued now delay job db db')
    (fresh : ∀ j ∈ db.jobs, j.id < db.nextJobId) : ∀ j ∈ db'.jobs, j.id < db'.nextJobId := by
  intro j hj
  rw [h.nextJobId]
  rcases (h.jobs j).mp hj with hj | rfl
  · exact Nat.lt_succ_of_lt (fresh j hj)
  · exact h.id ▸ Nat.lt_succ_self _

theorem enqueueDelayed_ok {now : DateTimeUtc} {jobType : String} {payload : ParseMessageJob} {priority delay : Int}
    {job : Job} {db db' : Database} (h : enqueueDelayed now jobType payload priority delay db = .ok (job, db')) :
    Enqueued now delay job db db' := by
  simp only [enqueueDelayed] at h
  split at h
  · cases h
  · rename_i jobs hi
    cases h
    exact ⟨rfl, rfl, rfl, rfl, rfl, rfl, fun j => Keyed.Table.mem_of_insert hi⟩

theorem mem_resetRunningToPending {db db' : Database} {n : Nat}
    (h : resetRunningToPending db = .ok (n, db')) {j : Job} :
    j ∈ db'.jobs ↔ ∃ j' ∈ db.jobs, j = if j'.status = .running then j'.reset else j' := by
  cases h
  have h := @Keyed.Table.mem_update _ _ Job.id db.jobs (fun j => j.status = .running) Job.reset (fun _ => rfl) j
  simp only [decide_eq_true_eq] at h
  exact h

theorem deleteOldJobs_ok {cutoff : DateTimeUtc} {db db' : Database} {n : Nat}
    (h : deleteOldJobs cutoff db = .ok (n, db')) :
    db' = { db with jobs := db'.jobs } ∧ (∀ j ∈ db'.jobs, j ∈ db.jobs) ∧
      ∀ j ∈ db.jobs, j.status = .pending ∨ j.status = .running → j ∈ db'.jobs := by
  cases h
  refine ⟨rfl, fun j hj => (Keyed.Table.mem_filter.mp hj).1, fun j hj hs => Keyed.Table.mem_filter.mpr ⟨hj, ?_⟩⟩
  rcases hs with hs | hs <;> simp [hs]

theorem enqueueRaw_ok {now : DateTimeUtc} {jobType : String} {payload : ParseMessageJob}
    {priority : Int} {job : Job}
    {db db' : Database} (h : enqueueRaw now jobType payload priority db = .ok (job, db')) :
    job.payload = payload ∧ job.status = .pending ∧
      db' = { db with jobs := db'.jobs, nextJobId := db.nextJobId + 1 } ∧
      ∀ j, j ∈ db'.jobs ↔ j ∈ db.jobs ∨ j = job := by
  simp only [enqueueRaw] at h
  split at h
  · cases h
  · rename_i jobs hi
    cases h
    exact ⟨rfl, rfl, rfl, fun j => Keyed.Table.mem_of_insert hi⟩

theorem enqueueRaw_fields {now : DateTimeUtc} {jobType : String} {payload : ParseMessageJob}
    {priority : Int} {job : Job}
    {db db' : Database} (h : enqueueRaw now jobType payload priority db = .ok (job, db')) :
    job.id = db.nextJobId ∧ job.jobType = jobType := by
  simp only [enqueueRaw] at h
  split at h <;> cases h
  exact ⟨rfl, rfl⟩

theorem enqueueRaw_priority {now : DateTimeUtc} {jobType : String} {payload : ParseMessageJob}
    {priority : Int} {job : Job}
    {db db' : Database} (h : enqueueRaw now jobType payload priority db = .ok (job, db')) :
      job.priority = priority := by
  simp only [enqueueRaw] at h
  split at h <;> cases h
  rfl

private theorem nextCandidate_eq_some {now : DateTimeUtc} {db : Database} {j : Job}
    (h : nextCandidate now db = some j) :
    j ∈ db.jobs ∧ j.status = .pending ∧ j.scheduledAt ≤ now := by
  have hm := mem_sortDesc.mp (List.mem_of_head? h)
  simpa [Keyed.Table.mem_def] using hm

/-- A guard that names the id of a job in the table selects that job. -/
private theorem rewritten {f : Job → Job} {hf : ∀ j, (f j).id = j.id} {guard : Job → Bool} {j : Job} {db : Database}
    (hj : j ∈ db.jobs) (hg : guard j = true) (hid : ∀ j', guard j' = true → j'.id = j.id) :
    j.Rewritten f db (db.updateJobs guard f hf) ∧ (db.updateJobs guard f hf).jobs.find? j.id = some (f j) := by
  have hp : ∀ j' ∈ db.jobs, guard j' = true ↔ j'.id = j.id := by
    intro j' hj'
    exact ⟨hid j', fun he => Keyed.Table.eq_of_key hj' hj he ▸ hg⟩
  have hmem := fun j' => @Keyed.Table.mem_update_one _ _ Job.id db.jobs guard f hf j hj hp j'
  exact ⟨⟨hj, rfl, hmem⟩, Keyed.Table.find?_eq_some.mpr ⟨(hmem _).mpr (.inl rfl), hf j⟩⟩

/-- The best candidate is the one a claim takes, at the first try. -/
private theorem claimNext_of_candidate {now : DateTimeUtc} {j : Job} {db : Database}
    (hj : nextCandidate now db = some j) :
    ∃ db', claimNext now db = .ok (some (j.claimed now), db') ∧ Job.Rewritten (·.claimed now) j db db' := by
  obtain ⟨hm, hs, -⟩ := nextCandidate_eq_some hj
  have hg : (j.id = j.id && j.version = j.version && j.status = .pending) = true := by simp [hs]
  have hid : ∀ j' : Job, (j'.id = j.id && j'.version = j.version && j'.status = .pending) = true →
      j'.id = j.id := by
    simp only [Bool.and_eq_true, decide_eq_true_eq]
    exact fun j' h => h.1.1
  obtain ⟨hw, hf⟩ := @rewritten (·.claimed now) (fun _ => rfl) _ j db hm hg hid
  refine ⟨_, ?_, hw⟩
  simp only [claimNext, claimLoop, hj, Keyed.Table.count_eq_one hm hg fun j' _ => hid j', if_true, hf]

/-- A claim takes one job that was waiting, or finds none. -/
theorem claimNext_ok {now : DateTimeUtc} {found : Option Job} {db db' : Database}
    (h : claimNext now db = .ok (found, db')) :
    found = none ∧ db' = db ∨
      ∃ j, j.status = .pending ∧ j.scheduledAt ≤ now ∧ found = some (j.claimed now) ∧
        Job.Rewritten (·.claimed now) j db db' := by
  cases hj : nextCandidate now db with
  | none =>
    simp only [claimNext, claimLoop, hj] at h
    cases h
    exact .inl ⟨rfl, rfl⟩
  | some j =>
    obtain ⟨-, hs, ht⟩ := nextCandidate_eq_some hj
    obtain ⟨db'', hc, hw⟩ := claimNext_of_candidate hj
    rw [hc] at h
    cases h
    exact .inr ⟨j, hs, ht, rfl, hw⟩

/-- An outcome is reported on the job whose version the worker holds. -/
theorem finish_ok {name : String} {job updated : Job} {f : Job → Job} {hf : ∀ j, (f j).id = j.id}
    {db db' : Database}
    (h : finish name job f hf db = .ok (updated, db')) :
    ∃ j, j.id = job.id ∧ j.version = job.version ∧ updated = f j ∧ Job.Rewritten f j db db' := by
  simp only [finish] at h
  split at h
  · cases h
  · rename_i hc
    rw [not_not] at hc
    obtain ⟨j, hj, hg⟩ := Keyed.Table.count_pos_iff.mp (hc ▸ Nat.zero_lt_one)
    obtain ⟨hi, hv⟩ : j.id = job.id ∧ j.version = job.version := by simpa using hg
    have hid : ∀ j' : Job, (j'.id = job.id && j'.version = job.version) = true → j'.id = j.id := by
      simp only [Bool.and_eq_true, decide_eq_true_eq]
      exact fun j' h => h.1.trans hi.symm
    obtain ⟨hw, hfind⟩ := @rewritten f hf _ j db hj hg hid
    rw [hi] at hfind
    rw [hfind] at h
    cases h
    exact ⟨j, hi, hv, rfl, hw⟩

theorem complete_ok {now : DateTimeUtc} {job updated : Job} {db db' : Database}
    (h : complete now job db = .ok (updated, db')) :
    ∃ j, j.id = job.id ∧ j.version = job.version ∧ Job.Rewritten (·.completed now) j db db' := by
  obtain ⟨j, hi, hv, -, hw⟩ := finish_ok h
  exact ⟨j, hi, hv, hw⟩

theorem failTerminal_ok {now : DateTimeUtc} {error : String} {job updated : Job} {db db' : Database}
    (h : failTerminal now job error db = .ok (updated, db')) :
    ∃ j, j.id = job.id ∧ j.version = job.version ∧ Job.Rewritten (·.failed now error) j db db' := by
  obtain ⟨j, hi, hv, -, hw⟩ := finish_ok h
  exact ⟨j, hi, hv, hw⟩

/-- Below the limit the job goes back to the queue; at the limit it has failed. -/
theorem fail_ok {now : DateTimeUtc} {error : String} {job updated : Job} {db db' : Database}
    (h : fail now job error db = .ok (updated, db')) :
    ∃ j, j.id = job.id ∧ j.version = job.version ∧
      (Job.Rewritten (·.rescheduled (now + backoff job.attempt) error) j db db' ∨
        job.maxAttempts ≤ job.attempt ∧ Job.Rewritten (·.failed now error) j db db') := by
  unfold fail at h
  split at h
  · obtain ⟨j, hi, hv, -, hw⟩ := finish_ok h
    exact ⟨j, hi, hv, .inl hw⟩
  · obtain ⟨j, hi, hv, -, hw⟩ := finish_ok h
    exact ⟨j, hi, hv, .inr ⟨by omega, hw⟩⟩

/-- A claim that finds nothing leaves no job that is due. -/
theorem claimNext_none {now : DateTimeUtc} {db db' : Database} (h : claimNext now db = .ok (none, db')) {j : Job}
    (hj : j ∈ db.jobs) (hs : j.status = .pending) : now < j.scheduledAt := by
  by_contra hd
  have hm : j ∈ sortDesc claimKey (db.jobs.rows.filter fun j => j.status = .pending && decide (j.scheduledAt ≤ now)) := by
    rw [mem_sortDesc]
    simpa [hs, Keyed.Table.mem_def] using ⟨hj, not_lt.mp hd⟩
  cases hx : nextCandidate now db with
  | none =>
    rw [List.head?_eq_none_iff.mp hx] at hm
    cases hm
  | some x =>
    obtain ⟨db'', hc, -⟩ := claimNext_of_candidate hx
    rw [hc] at h
    cases h

/-- No job that is due ranks above the one a claim takes. -/
theorem claimNext_first {now : DateTimeUtc} {job j : Job} {db db' : Database}
    (h : claimNext now db = .ok (some job, db'))
    (hj : j ∈ db.jobs) (pending : j.status = .pending) (due : j.scheduledAt ≤ now) : claimKey j ≤ claimKey job := by
  cases hx : nextCandidate now db with
  | none =>
    simp only [claimNext, claimLoop, hx] at h
    cases h
  | some x =>
    obtain ⟨db'', hc, -⟩ := claimNext_of_candidate hx
    rw [hc] at h
    cases h
    change claimKey j ≤ claimKey x
    apply le_of_head_sortDesc hx
    simpa [Keyed.Table.mem_def] using ⟨hj, pending, due⟩

/-- A report on a job that stands in the table as the worker has it goes through. -/
theorem finish_of_mem {name : String} {job : Job} {f : Job → Job} {hf : ∀ j, (f j).id = j.id} {db : Database}
    (h : job ∈ db.jobs) : ∃ db', finish name job f hf db = .ok (f job, db') := by
  have hg : (job.id = job.id && job.version = job.version) = true := by simp
  have hid : ∀ j' : Job, (j'.id = job.id && j'.version = job.version) = true → j'.id = job.id := by
    simp only [Bool.and_eq_true, decide_eq_true_eq]
    exact fun j' h => h.1
  obtain ⟨-, hfind⟩ := @rewritten f hf _ job db h hg hid
  refine ⟨db.updateJobs (fun j => j.id = job.id && j.version = job.version) f hf, ?_⟩
  simp only [finish, Keyed.Table.count_eq_one h hg fun j' _ => hid j', ne_eq, not_true_eq_false, if_false, hfind]

end JobRepository
end MailKeep
