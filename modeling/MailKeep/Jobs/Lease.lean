import MailKeep.Jobs.Worker
import MailKeep.Program.Place

/-! A claimed job is its worker's alone: the row stands in the table as the worker has it, until the
worker reports. -/
namespace MailKeep
open Program

structure Lease where
  job : Job
  dispatched : Bool

/-- Where a thread stands: whether it is a worker, the job it holds, whether its claim since it enabled
its notification found nothing, and the job whose waiters it still has to wake. -/
structure Place where
  working : Bool
  held : Option Lease
  searched : Bool
  owed : Option JobId

variable {ι : Type} [DecidableEq ι] {registered : String → Bool}

/-- The order in which a worker and a caller of `enqueue` issue their operations. -/
def jobPlaces (ι : Type) [DecidableEq ι] (registered : String → Bool) :
    Discipline (jobQueue ι registered) ι Place where
  start := ⟨false, none, false, none⟩
  ready i place
    | .enable me => me = i ∧ place.working = true ∧ place.held = none
    | .claimNext => place.working = true ∧ place.held = none
    | .dispatch job => place.held = some ⟨job, false⟩
    | .report job _ => place.held = some ⟨job, true⟩
    | .wait me => me = i ∧ place.held = none ∧ place.searched = true
    | .notifyWaiters jobId => place.held = none ∧ place.owed = some jobId
    | .isShutdownRequested | .pause | .enqueue _ _ _ _ => place.held = none
  after place
    | .enable _, _ => { place with searched := false }
    | .claimNext, .ok (some job) => { place with held := some ⟨job, false⟩, searched := false }
    | .claimNext, .ok none => { place with searched := true }
    | .claimNext, .error _ => { place with searched := false }
    | .dispatch job, _ => { place with held := some ⟨job, true⟩ }
    | .report _ _, _ => { place with held := none }
    | .enqueue _ _ _ _, .ok job => { place with owed := some job.id }
    | .enqueue _ _ _ _, .error _ => place
    | .wait _, _ | .notifyWaiters _, _ | .isShutdownRequested, _ | .pause, _ => place
  done place := place.held = none

section
variable {i : ι} {place : Place}

private theorem fits_pauseRound (h : place.held = none) :
    (jobPlaces ι registered).Fits i place (pauseRound (ι := ι)) := by
  refine ⟨h, fun b => ?_⟩
  cases b <;> exact h

private theorem fits_afterError (e : Error) (h : place.held = none) :
    (jobPlaces ι registered).Fits i place (afterError (ι := ι) e) := by
  unfold afterError
  split
  · exact fits_pauseRound h
  · exact h

private theorem fits_reportOutcome {job : Job} (r : Report) (h : place.held = some ⟨job, true⟩) :
    (jobPlaces ι registered).Fits i place (reportOutcome (ι := ι) job r) := by
  refine ⟨h, fun reply => ?_⟩
  cases reply with
  | ok _ => rfl
  | error e => exact fits_afterError e rfl

private theorem fits_handleJob {job : Job} (h : place.held = some ⟨job, false⟩) :
    (jobPlaces ι registered).Fits i place (handleJob (ι := ι) job) := by
  refine ⟨h, fun reply => ?_⟩
  cases reply with
  | ok _ => exact fits_reportOutcome _ rfl
  | error e => exact fits_reportOutcome _ rfl

private theorem fits_workerRound (i : ι) :
    (jobPlaces ι registered).Fits i ⟨true, none, false, none⟩ (workerRound i) := by
  refine ⟨rfl, fun shutdown => ?_⟩
  cases shutdown with
  | true => rfl
  | false =>
    refine ⟨⟨rfl, rfl, rfl⟩, fun _ => ⟨⟨rfl, rfl⟩, fun reply => ?_⟩⟩
    match reply with
    | .error e => exact fits_afterError e rfl
    | .ok (some job) => exact fits_handleJob rfl
    | .ok none =>
      refine ⟨⟨rfl, rfl, rfl⟩, fun shutdown => ?_⟩
      cases shutdown <;> rfl

private theorem fits_enqueueRawDelayed (jobType : String) (payload : ParseMessageJob) (priority delay : Int) :
    (jobPlaces ι registered).Fits i ⟨false, none, false, none⟩
      (enqueueRawDelayed (ι := ι) jobType payload priority delay) := by
  refine ⟨rfl, fun reply => ?_⟩
  cases reply with
  | ok job => exact ⟨⟨rfl, rfl⟩, fun _ => rfl⟩
  | error e => rfl

end

/-- The program goes on to report on the job, whatever its handler answers. -/
def WillReport (job : Job) : JobProg ι RoundEnd → Prop
  | .call (.report job' _) _ => job' = job
  | .call (.dispatch job') next => job' = job ∧ ∀ r, WillReport job (next r)
  | _ => False

def Holds (c : Config (jobQueue ι registered) ι RoundEnd) (i : ι) (job : Job) : Prop :=
  ∃ p, c.threads i = some p ∧ WillReport job p

private theorem willReport_of_fits {i : ι} {place : Place} {p : JobProg ι RoundEnd} {lease : Lease}
    (h : (jobPlaces ι registered).Fits i place p) (held : place.held = some lease) : WillReport lease.job p := by
  induction p generalizing place lease with
  | ret a => exact absurd (held.symm.trans h) (by simp)
  | call o next ih =>
    obtain ⟨ready, fits⟩ := h
    cases o with
    | dispatch job =>
      obtain rfl := Option.some.inj (held.symm.trans ready)
      exact ⟨rfl, fun r => @ih r _ ⟨job, true⟩ (fits r) rfl⟩
    | report job r =>
      obtain rfl := Option.some.inj (held.symm.trans ready)
      rfl
    | enable me => exact absurd (held.symm.trans ready.2.2) (by simp)
    | claimNext => exact absurd (held.symm.trans ready.2) (by simp)
    | wait me => exact absurd (held.symm.trans ready.2.1) (by simp)
    | notifyWaiters jobId => exact absurd (held.symm.trans ready.1) (by simp)
    | isShutdownRequested => exact absurd (held.symm.trans ready) (by simp)
    | pause => exact absurd (held.symm.trans ready) (by simp)
    | enqueue => exact absurd (held.symm.trans ready) (by simp)

private theorem held_of_willReport {i : ι} {place : Place} {p : JobProg ι RoundEnd} {job : Job}
    (h : (jobPlaces ι registered).Fits i place p) (will : WillReport job p) :
    ∃ dispatched, place.held = some ⟨job, dispatched⟩ := by
  cases p with
  | ret a => exact will.elim
  | call o next =>
    cases o with
    | dispatch job' =>
      obtain ⟨rfl, -⟩ := will
      exact ⟨false, h.1⟩
    | report job' r =>
      obtain rfl := will
      exact ⟨true, h.1⟩
    | _ => exact will.elim

section
variable {c : Config (jobQueue ι registered) ι RoundEnd} {places : ι → Place}

/-- A thread's place names the job it holds. -/
theorem holds_iff (linked : (jobPlaces ι registered).Linked c places) {i : ι} {job : Job} :
    Holds c i job ↔ ∃ dispatched, (places i).held = some ⟨job, dispatched⟩ := by
  constructor
  · rintro ⟨p, hp, will⟩
    exact held_of_willReport ((linked i).1 p hp) will
  · rintro ⟨dispatched, held⟩
    cases hp : c.threads i with
    | none =>
      rw [(linked i).2 hp] at held
      cases held
    | some p => exact ⟨p, hp, willReport_of_fits ((linked i).1 p hp) held⟩

end

/-- What one operation of a thread does to the queue and to its place. -/
inductive Move (follows : DateTimeUtc → DateTimeUtc → Prop) (i : ι) (s : Queue ι) (place : Place) :
    Queue ι → Place → Prop
  | rest : Move follows i s place s place
  | enable (working : place.working = true) : Move follows i s place (s.setWaiting i (some false))
    { place with searched := false }
  | claimFailed (now : DateTimeUtc) (time : now = s.clock ∨ follows s.clock now) :
      Move follows i s place { s with clock := now } { place with searched := false }
  | claimNone (now : DateTimeUtc) (time : follows s.clock now)
      (nothing : ∀ j ∈ s.db.jobs, j.status = .pending → now < j.scheduledAt) :
      Move follows i s place { s with clock := now } { place with searched := true }
  | claimSome (now : DateTimeUtc) (time : follows s.clock now) (working : place.working = true)
      (free : place.held = none) (j : Job) (db : Database) (pending : j.status = .pending)
      (row : Job.Rewritten (·.claimed now) j s.db db) :
      Move follows i s place { s with db := db, clock := now }
        { place with held := some ⟨j.claimed now, false⟩, searched := false }
  | dispatch (job : Job) (held : place.held = some ⟨job, false⟩) :
      Move follows i s place { s with dispatched := job.id :: s.dispatched } { place with held := some ⟨job, true⟩ }
  | report (now : DateTimeUtc) (time : follows s.clock now) (job : Job) (held : place.held = some ⟨job, true⟩)
      (f : Job → Job) (db : Database) (row : Job.Rewritten f job s.db db) (leaves : Report.Leaves now job (f job)) :
      Move follows i s place { s with db := db, clock := now } { place with held := none }
  | reportFailed (job : Job) (held : place.held = some ⟨job, true⟩) :
      Move follows i s place { s with unreported := job.id :: s.unreported } { place with held := none }
  | wait : Move follows i s place (s.setWaiting i none) place
  | enqueueFailed (now : DateTimeUtc) (time : now = s.clock ∨ follows s.clock now) :
      Move follows i s place { s with clock := now } place
  | enqueue (now : DateTimeUtc) (time : follows s.clock now) (delay : Int) (job : Job) (db : Database)
      (row : JobRepository.Enqueued now delay job s.db db) :
      Move follows i s place { s with db := db, clock := now, enqueued := (now, job) :: s.enqueued }
        { place with owed := some job.id }
  | notify (jobId : JobId) (owed : place.owed = some jobId) : Move follows i s place (s.notify jobId) place

/-- A thread at its place moves so; a report does not conflict with the row. -/
theorem Move.of_ready {follows : DateTimeUtc → DateTimeUtc → Prop} {i : ι} {s : Queue ι}
    {place : Place} {o : JobOp ι}
    {ch : JobOp.Choice o} (ready : (jobPlaces ι registered).ready i place o)
    (ok : queueAllowed registered follows s o ch)
    (row : ∀ l, place.held = some l → l.job ∈ s.db.jobs) :
    Move follows i s place ((jobQueue ι registered).exec o ch s).2
      ((jobPlaces ι registered).after place o ((jobQueue ι registered).exec o ch s).1) := by
  cases o with
  | isShutdownRequested => exact .rest
  | pause => exact .rest
  | enable me =>
    obtain ⟨rfl, working, -⟩ := ready
    exact .enable working
  | wait me =>
    obtain ⟨rfl, -, -⟩ := ready
    exact .wait
  | notifyWaiters jobId => exact .notify jobId ready.2
  | dispatch job => exact .dispatch job ready
  | claimNext =>
    have exec : (jobQueue ι registered).exec .claimNext ch s = s.transact JobRepository.claimNext ch := rfl
    rw [exec]
    rcases s.transact_cases JobRepository.claimNext ch with ⟨e, rfl, h⟩ | ⟨now, rfl, ⟨e, -, h⟩ | ⟨found, db, hc, h⟩⟩
    · rw [h]
      exact .claimFailed s.clock (.inl rfl)
    · rw [h]
      exact .claimFailed now (.inr ok)
    · rw [h]
      rcases JobRepository.claimNext_ok hc with ⟨rfl, rfl⟩ | ⟨j, pending, -, rfl, rewritten⟩
      · exact .claimNone now ok fun j hj hs => JobRepository.claimNext_none hc hj hs
      · exact .claimSome now ok ready.1 ready.2 j db pending rewritten
  | report job r =>
    have exec : (jobQueue ι registered).exec (.report job r) ch s = Queue.noteReport job
      (s.transact (r.body · job) ch) := rfl
    rw [exec]
    rcases s.transact_cases (r.body · job) ch with ⟨e, rfl, h⟩ | ⟨now, rfl, ⟨e, he, h⟩ | ⟨updated, db, hr, h⟩⟩
    · rw [h]
      exact .reportFailed job ready
    · obtain ⟨updated, db, hr⟩ := r.body_of_mem now (row _ ready)
      rw [he] at hr
      cases hr
    · rw [h]
      obtain ⟨f, rewritten, leaves⟩ := Report.body_ok (row _ ready) hr
      exact .report now ok job ready f db rewritten leaves
  | enqueue jobType payload priority delay =>
    have exec : (jobQueue ι registered).exec (.enqueue jobType payload priority delay) ch s =
      Queue.noteEnqueued (s.transact (JobRepository.enqueueDelayed · jobType payload priority delay) ch) := rfl
    rw [exec]
    rcases s.transact_cases (JobRepository.enqueueDelayed · jobType payload priority delay) ch with
      ⟨e, rfl, h⟩ | ⟨now, rfl, ⟨e, -, h⟩ | ⟨job, db, hj, h⟩⟩
    · rw [h]
      exact .enqueueFailed s.clock (.inl rfl)
    · rw [h]
      exact .enqueueFailed now (.inr ok)
    · rw [h]
      exact .enqueue now ok delay job db (JobRepository.enqueueDelayed_ok hj)

/-- What the leases of the workers and the rows of the table have to do with each other. -/
structure Exclusive (s : Queue ι) (places : ι → Place) : Prop where
  row : ∀ i l, (places i).held = some l → l.job ∈ s.db.jobs ∧ l.job.status = .running
  alone : ∀ i k l m, (places i).held = some l → (places k).held = some m → l.job.id = m.job.id → i = k
  fresh : ∀ j ∈ s.db.jobs, j.id < s.db.nextJobId
  working : ∀ i l, (places i).held = some l → (places i).working = true
  manned : ∀ i, (places i).working = true → s.started = true

namespace Exclusive
variable {s s' : Queue ι} {places : ι → Place} {i : ι} {place : Place}

/-- A step that claims nothing: leases may end, their rows stay. -/
theorem step (h : Exclusive s places) (held : ∀ l, place.held = some l → ∃ m, (places i).held = some m ∧ l.job = m.job)
    (working : place.working = (places i).working) (started : s'.started = s.started)
    (kept : ∀ k l, (Function.update places i place k).held = some l → l.job ∈ s.db.jobs → l.job.status = .running →
      l.job ∈ s'.db.jobs)
    (fresh : ∀ j ∈ s'.db.jobs, j.id < s'.db.nextJobId) : Exclusive s' (Function.update places i place) := by
  have before : ∀ k l, (Function.update places i place k).held = some l →
      ∃ m, (places k).held = some m ∧ l.job = m.job := by
    intro k l hl
    rw [Function.update_apply] at hl
    split at hl
    · rename_i hk
      exact hk ▸ held l hl
    · exact ⟨l, hl, rfl⟩
  have works : ∀ k, (Function.update places i place k).working = (places k).working := by
    intro k
    rw [Function.update_apply]
    split
    · rename_i hk
      rw [hk, working]
    · rfl
  refine ⟨fun k l hl => ?_, fun k k' l l' hl hl' he => ?_, fresh, fun k l hl => ?_, fun k hk => ?_⟩
  · obtain ⟨m, hm, he⟩ := before k l hl
    obtain ⟨hr, hs⟩ := h.row k m hm
    rw [← he] at hr hs
    exact ⟨kept k l hl hr hs, hs⟩
  · obtain ⟨m, hm, hj⟩ := before k l hl
    obtain ⟨m', hm', hj'⟩ := before k' l' hl'
    exact h.alone k k' m m' hm hm' (hj ▸ hj' ▸ he)
  · obtain ⟨m, hm, -⟩ := before k l hl
    rw [works]
    exact h.working k m hm
  · rw [works] at hk
    rw [started]
    exact h.manned k hk

/-- A step that touches neither the table nor a lease. -/
private theorem frame (h : Exclusive s places) (db : s'.db = s.db) (started : s'.started = s.started)
    (held : place.held = (places i).held) (working : place.working = (places i).working) :
    Exclusive s' (Function.update places i place) :=
  h.step (fun l hl => ⟨l, held ▸ hl, rfl⟩) working started (fun _ _ _ hr _ => db ▸ hr) (db ▸ h.fresh)

/-- A claim: the row it takes was waiting, so no worker had it. -/
private theorem claim (h : Exclusive s places) (working : (places i).working = true) {now : DateTimeUtc} {j : Job}
    {db : Database} (pending : j.status = .pending) (row : Job.Rewritten (·.claimed now) j s.db db)
    (hp : place = { places i with held := some ⟨j.claimed now, false⟩, searched := false }) :
    Exclusive { s with db := db, clock := now } (Function.update places i place) := by
  subst hp
  have other : ∀ k l, (places k).held = some l → l.job ∈ db.jobs ∧ l.job.id ≠ j.id := by
    intro k l hl
    obtain ⟨hr, hs⟩ := h.row k l hl
    have ne : l.job.id ≠ j.id := by
      intro he
      rw [Keyed.Table.eq_of_key hr row.mem he, pending] at hs
      cases hs
    exact ⟨(row.jobs _).mpr (.inr ⟨hr, ne⟩), ne⟩
  refine ⟨fun k l hl => ?_, fun k k' l l' hl hl' he => ?_, fun j' hj' => ?_, fun k l hl => ?_, fun k hk => ?_⟩
  · rw [Function.update_apply] at hl
    split at hl
    · cases hl
      exact ⟨(row.jobs _).mpr (.inl rfl), rfl⟩
    · exact ⟨(other k l hl).1, (h.row k l hl).2⟩
  · rw [Function.update_apply] at hl hl'
    split at hl <;> split at hl'
    · rename_i hk hk'
      exact hk.trans hk'.symm
    · cases hl
      exact absurd he.symm (other k' l' hl').2
    · cases hl'
      exact absurd he (other k l hl).2
    · exact h.alone k k' l l' hl hl' he
  · exact row.fresh rfl h.fresh j' hj'
  · rw [Function.update_apply] at hl ⊢
    split at hl
    · rename_i hk
      rw [if_pos hk]
      exact working
    · rename_i hk
      rw [if_neg hk]
      exact h.working k l hl
  · rw [Function.update_apply] at hk
    split at hk
    · exact h.manned i hk
    · exact h.manned k hk

theorem move (h : Exclusive s places) {follows : DateTimeUtc → DateTimeUtc → Prop}
    (m : Move follows i s (places i) s' place) : Exclusive s' (Function.update places i place) := by
  cases m with
  | rest => exact h.frame rfl rfl rfl rfl
  | enable => exact h.frame rfl rfl rfl rfl
  | claimFailed => exact h.frame rfl rfl rfl rfl
  | claimNone => exact h.frame rfl rfl rfl rfl
  | claimSome now time working free j db pending row => exact h.claim working pending row rfl
  | dispatch job held =>
    refine h.step (fun l hl => ⟨_, held, ?_⟩) rfl rfl (fun _ _ _ hr _ => hr) h.fresh
    cases hl
    rfl
  | report now time job held f db row leaves =>
    refine h.step (fun l hl => (by cases hl)) rfl rfl (fun k l hl hr _ => (row.jobs _).mpr (.inr ⟨hr, fun he => ?_⟩))
      (row.fresh leaves.id h.fresh)
    rw [Function.update_apply] at hl
    split at hl
    · cases hl
    · rename_i hk
      exact hk (h.alone k i l _ hl held he)
  | reportFailed job held =>
    exact h.step (fun l hl => (by cases hl)) rfl rfl (fun _ _ _ hr _ => hr) h.fresh
  | wait => exact h.frame rfl rfl rfl rfl
  | enqueueFailed => exact h.frame rfl rfl rfl rfl
  | enqueue now time delay job db row =>
    exact h.step (fun l hl => ⟨l, hl, rfl⟩) rfl rfl (fun _ _ _ hr _ => (row.jobs _).mpr (.inl hr))
      (row.fresh h.fresh)
  | notify => exact h.frame rfl rfl rfl rfl

omit [DecidableEq ι] in
/-- Where nobody holds anything, any table with fresh ids will do. -/
theorem unheld {places : ι → Place} (none : ∀ i, (places i).held = none ∧ (places i).working = false)
    (fresh : ∀ j ∈ s.db.jobs, j.id < s.db.nextJobId) : Exclusive s places where
  row i l hl := by simp [(none i).1] at hl
  alone i _ l _ hl := by simp [(none i).1] at hl
  fresh := fresh
  working i l hl := by simp [(none i).1] at hl
  manned i hi := by simp [(none i).2] at hi

theorem begin (h : Exclusive s places) {working : Bool} (manned : working = true → s.started = true) :
    Exclusive s (Function.update places i ⟨working, none, false, none⟩) := by
  have before : ∀ k l, (Function.update places i ⟨working, none, false, none⟩ k).held = some l →
      (places k).held = some l ∧ Function.update places i ⟨working, none, false, none⟩ k = places k := by
    intro k l hl
    rw [Function.update_apply] at hl ⊢
    split at hl
    · cases hl
    · rename_i hk
      exact ⟨hl, if_neg hk⟩
  refine ⟨fun k l hl => h.row k l (before k l hl).1,
    fun k k' l l' hl hl' => h.alone k k' l l' (before k l hl).1 (before k' l' hl').1,
      h.fresh, fun k l hl => ?_, fun k hk => ?_⟩
  · rw [(before k l hl).2]
    exact h.working k l (before k l hl).1
  · rw [Function.update_apply] at hk
    split at hk
    · exact manned hk
    · exact h.manned k hk

omit [DecidableEq ι] in
private theorem deletesOldJobs (h : Exclusive s places) (hs : s.DeletesOldJobs s') : Exclusive s' places := by
  obtain ⟨cutoff, n, db, hd, rfl⟩ := hs
  obtain ⟨rest, sub, kept⟩ := JobRepository.deleteOldJobs_ok hd
  refine ⟨fun i l hl => ?_, h.alone, fun j hj => ?_, h.working, h.manned⟩
  · obtain ⟨hr, running⟩ := h.row i l hl
    exact ⟨kept _ hr (.inr running), running⟩
  · rw [rest]
    exact h.fresh j (sub j hj)

omit [DecidableEq ι] in
/-- The subsystem starts where no worker runs, so the rows it resets are nobody's. -/
private theorem boots (h : Exclusive s places) (hs : s.Boots s') : Exclusive s' places := by
  obtain ⟨off, n, db, hr, rfl⟩ := hs
  have idle : ∀ i, (places i).working = false := by
    intro i
    cases hw : (places i).working with
    | false => rfl
    | true => simp [h.manned i hw] at off
  refine unheld (fun i => ⟨?_, idle i⟩) fun j hj => ?_
  · cases hl : (places i).held with
    | none => rfl
    | some l => cases (idle i).symm.trans (h.working i l hl)
  · obtain ⟨j', hj', rfl⟩ := (JobRepository.mem_resetRunningToPending hr).mp hj
    cases hr
    split
    · exact h.fresh j' hj'
    · exact h.fresh j' hj'

end Exclusive

variable {follows : DateTimeUtc → DateTimeUtc → Prop} {crashes : Prop} {boots : Queue ι → Prop}

/-- What a thread may start, it starts at the place of its kind. -/
theorem fits_root {s : Queue ι} {i : ι} {p : JobProg ι RoundEnd}
    (may : (jobSystem registered follows crashes boots).root s i p) :
    ∃ working, (working = true → s.started = true) ∧
      (jobPlaces ι registered).Fits i ⟨working, none, false, none⟩ p := by
  rcases may with ⟨started, rfl⟩ | ⟨jobType, payload, priority, delay, rfl⟩
  · exact ⟨true, fun _ => started, fits_workerRound i⟩
  · exact ⟨false, fun h => (by cases h), fits_enqueueRawDelayed jobType payload priority delay⟩

theorem exclusive_keeps : (jobPlaces ι registered).Keeps
    (jobSystem registered follows crashes boots) Exclusive where
  begins s places i p h may _ := by
    obtain ⟨working, manned, fits⟩ := fits_root may
    exact ⟨_, fits, h.begin manned⟩
  op s places i o ch h ready ok := h.move (.of_ready ready ok fun l hl => (h.row i l hl).1)
  env s t places h ht := by
    rcases ht with hd | ⟨hb, -⟩
    · exact h.deletesOldJobs hd
    · exact h.boots hb
  crash s t places h ht := by
    obtain ⟨-, rfl⟩ := ht
    exact .unheld (fun _ => ⟨rfl, rfl⟩) h.fresh

end MailKeep
