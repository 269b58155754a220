import MailKeep.Jobs.Exclusivity

/-! How often a job is tried: the claim counts, a retry and a restart give the job back. -/
namespace MailKeep
open Program

variable {ι : Type} [DecidableEq ι] {registered : String → Bool} {follows : DateTimeUtc → DateTimeUtc → Prop}
  {crashes : Prop}

/-- No running job has used up its attempts: what a restart needs to find. -/
def Queue.RunningHaveMore (s : Queue ι) : Prop :=
  ∀ j ∈ s.db.jobs, j.status = .running → j.attempt < j.maxAttempts

/-- The row's attempts cover what was dispatched, and one that waits has more. -/
structure Job.Accounted (s : Queue ι) (j : Job) : Prop where
  attempt : j.attempt ≤ j.maxAttempts
  more : j.status = .pending → j.attempt < j.maxAttempts
  count : s.dispatched.count j.id ≤ j.attempt
  origin : ∃ t job, (t, job) ∈ s.enqueued ∧ job.id = j.id ∧ job.maxAttempts = j.maxAttempts

/-- The history of the dispatches against the rows, the leases and the jobs ever enqueued. -/
structure Counted (s : Queue ι) (places : ι → Place) : Prop where
  rows : ∀ j ∈ s.db.jobs, j.Accounted s
  lease : ∀ i job, (places i).held = some ⟨job, false⟩ → s.dispatched.count job.id < job.attempt
  bound : ∀ t job, (t, job) ∈ s.enqueued → s.dispatched.count job.id ≤ job.maxAttempts
  known : ∀ id ∈ s.dispatched, ∃ t job, (t, job) ∈ s.enqueued ∧ job.id = id
  old : ∀ t job, (t, job) ∈ s.enqueued → job.id < s.db.nextJobId
  unique : ∀ t job t' job', (t, job) ∈ s.enqueued → (t', job') ∈ s.enqueued → job.id = job'.id → job = job'

namespace Counted
variable {s s' : Queue ι} {places : ι → Place} {i : ι} {place : Place}

private theorem update (h : Counted s places)
    (lease : ∀ job, place.held = some ⟨job, false⟩ → s.dispatched.count job.id < job.attempt) :
    Counted s (Function.update places i place) := by
  refine ⟨h.rows, fun k job hk => ?_, h.bound, h.known, h.old, h.unique⟩
  rw [Function.update_apply] at hk
  split at hk
  · exact lease job hk
  · exact h.lease k job hk

omit [DecidableEq ι] in
/-- A step of which the history says nothing new. -/
private theorem frame (h : Counted s places) (rows : ∀ j ∈ s'.db.jobs, j.Accounted s)
    (next : s'.db.nextJobId = s.db.nextJobId) (dispatched : s'.dispatched = s.dispatched)
    (enqueued : s'.enqueued = s.enqueued) : Counted s' places := by
  refine ⟨fun j hj => ?_, dispatched ▸ h.lease, ?_, ?_, ?_, enqueued ▸ h.unique⟩
  · obtain ⟨attempt, more, count, origin⟩ := rows j hj
    exact ⟨attempt, more, dispatched ▸ count, enqueued ▸ origin⟩
  · rw [enqueued, dispatched]
    exact h.bound
  · rw [enqueued, dispatched]
    exact h.known
  · rw [enqueued, next]
    exact h.old

omit [DecidableEq ι] in
/-- One row is rewritten, which leaves it accounted for. -/
private theorem rewritten (h : Counted s places) {f : Job → Job} {j : Job} {db : Database} (now : DateTimeUtc)
    (row : Job.Rewritten f j s.db db) (after : (f j).Accounted s) :
      Counted { s with db := db, clock := now } places := by
  refine h.frame (fun j' hj' => ?_) row.nextJobId rfl rfl
  rcases (row.jobs j').mp hj' with rfl | ⟨hj', -⟩
  · exact after
  · exact h.rows j' hj'

private theorem claim (h : Counted s places) {now : DateTimeUtc} {j : Job} {db : Database}
    (pending : j.status = .pending)
    (row : Job.Rewritten (·.claimed now) j s.db db) (held : place.held = some ⟨j.claimed now, false⟩) :
    Counted { s with db := db, clock := now } (Function.update places i place) := by
  obtain ⟨-, more, count, origin⟩ := h.rows j row.mem
  have counted : s.dispatched.count (j.claimed now).id < (j.claimed now).attempt := Nat.lt_succ_of_le count
  apply (h.rewritten now row ⟨more pending, fun hp => (by cases hp), counted.le, origin⟩).update
  intro job hj
  rw [held] at hj
  cases hj
  exact counted

private theorem dispatch (h : Counted s places) (exclusive : Exclusive s places) {job : Job}
    (held : (places i).held = some ⟨job, false⟩) :
    Counted { s with dispatched := job.id :: s.dispatched }
      (Function.update places i { places i with held := some ⟨job, true⟩ }) := by
  have hj : job ∈ s.db.jobs := (exclusive.row i _ held).1
  have mine : (job.id :: s.dispatched).count job.id ≤ job.attempt := by
    rw [List.count_cons_self]
    exact h.lease i job held
  have others : ∀ id, id ≠ job.id → (job.id :: s.dispatched).count id = s.dispatched.count id :=
    fun id ne => List.count_cons_of_ne ne.symm
  obtain ⟨t₀, job₀, hm₀, hid₀, hmax₀⟩ := (h.rows job hj).origin
  refine ⟨fun j hj' => ?_, fun k job' hk => ?_, fun t job' hm => ?_, fun id hid => ?_, h.old, h.unique⟩
  · obtain ⟨attempt, more, count, origin⟩ := h.rows j hj'
    refine ⟨attempt, more, ?_, origin⟩
    by_cases same : j.id = job.id
    · rw [Keyed.Table.eq_of_key hj' hj same]
      exact mine
    · exact (others _ same).trans_le count
  · rw [Function.update_apply] at hk
    split at hk
    · cases hk
    · rename_i ne
      have different : job'.id ≠ job.id := fun same => ne (exclusive.alone k i _ _ hk held same)
      exact (others _ different).trans_lt (h.lease k job' hk)
  · by_cases same : job'.id = job.id
    · obtain rfl := h.unique t job' t₀ job₀ hm hm₀ (same.trans hid₀.symm)
      rw [same, hmax₀]
      exact mine.trans (h.rows job hj).attempt
    · exact (others _ same).trans_le (h.bound t job' hm)
  · rcases List.mem_cons.mp hid with rfl | hid
    · exact ⟨t₀, job₀, hm₀, hid₀⟩
    · exact h.known id hid

omit [DecidableEq ι] in
private theorem enqueue (h : Counted s places) {now delay : DateTimeUtc} {job : Job} {db : Database}
    (row : JobRepository.Enqueued now delay job s.db db) :
    Counted { s with db := db, clock := now, enqueued := (now, job) :: s.enqueued } places := by
  have never : s.dispatched.count job.id = 0 := by
    apply List.count_eq_zero.mpr
    intro hm
    obtain ⟨t, job', hm', he⟩ := h.known _ hm
    exact absurd (h.old t job' hm') (by rw [he, row.id]; exact Nat.lt_irrefl _)
  have different : ∀ t job', (t, job') ∈ s.enqueued → job'.id ≠ job.id :=
    fun t job' hm he => absurd (h.old t job' hm) (by rw [he, row.id]; exact Nat.lt_irrefl _)
  refine ⟨fun j hj => ?_, h.lease, fun t job' hm => ?_, fun id hid => ?_, fun t job' hm => ?_, fun t j t' j' hm hm' he => ?_⟩
  · rcases (row.jobs j).mp hj with hj | rfl
    · obtain ⟨attempt, more, count, t, job', hm, rest⟩ := h.rows j hj
      exact ⟨attempt, more, count, t, job', List.mem_cons_of_mem _ hm, rest⟩
    · exact ⟨by rw [row.attempt]; exact Nat.zero_le _, fun _ => by rw [row.attempt, row.maxAttempts]; decide,
        never.le.trans (Nat.zero_le _), now, j, List.mem_cons_self .., rfl, rfl⟩
  · rcases List.mem_cons.mp hm with he | hm
    · cases he
      exact never.le.trans (Nat.zero_le _)
    · exact h.bound t job' hm
  · obtain ⟨t, job', hm, he⟩ := h.known id hid
    exact ⟨t, job', List.mem_cons_of_mem _ hm, he⟩
  · change job'.id < db.nextJobId
    rw [row.nextJobId]
    rcases List.mem_cons.mp hm with he | hm
    · cases he
      exact row.id ▸ Nat.lt_succ_self _
    · exact Nat.lt_succ_of_lt (h.old t job' hm)
  · rcases List.mem_cons.mp hm with hj | hm <;> rcases List.mem_cons.mp hm' with hj' | hm'
    · cases hj
      cases hj'
      rfl
    · cases hj
      exact absurd he.symm (different t' j' hm')
    · cases hj'
      exact absurd he (different t j hm)
    · exact h.unique t j t' j' hm hm' he

private theorem move (h : Counted s places) (exclusive : Exclusive s places)
    (m : Move follows i s (places i) s' place) : Counted s' (Function.update places i place) := by
  have kept : ∀ job, (places i).held = some ⟨job, false⟩ → s.dispatched.count job.id < job.attempt := h.lease i
  cases m with
  | claimSome now time working free j db pending row => exact h.claim pending row rfl
  | dispatch job held => exact h.dispatch exclusive held
  | report now time job held f db row leaves =>
    obtain ⟨attempt, -, count, origin⟩ := h.rows job row.mem
    refine (h.rewritten now row ⟨?_, ?_, ?_, ?_⟩).update fun job' hj => (by cases hj)
    · rw [leaves.attempt, leaves.maxAttempts]
      exact attempt
    · rw [leaves.attempt, leaves.maxAttempts]
      exact fun hp => (leaves.retry hp).1
    · rw [leaves.attempt, leaves.id]
      exact count
    · rw [leaves.id, leaves.maxAttempts]
      exact origin
  | reportFailed job held =>
    exact Counted.update (h.frame h.rows rfl rfl rfl) fun job' hj => (by cases hj)
  | enqueue now time delay job db row => exact (h.enqueue row).update kept
  | _ => exact Counted.update (h.frame h.rows rfl rfl rfl) kept

omit [DecidableEq ι] in
private theorem deletesOldJobs (h : Counted s places) (hs : s.DeletesOldJobs s') : Counted s' places := by
  obtain ⟨cutoff, n, db, hd, rfl⟩ := hs
  obtain ⟨rest, sub, -⟩ := JobRepository.deleteOldJobs_ok hd
  have next : db.nextJobId = s.db.nextJobId := by
    rw [rest]
  exact h.frame (fun j hj => h.rows j (sub j hj)) next rfl rfl

omit [DecidableEq ι] in
/-- A restart gives back the jobs that were running, each of which has more attempts. -/
private theorem afterBoot (h : Counted s places) (more : s.RunningHaveMore) (hs : s.Boots s') :
    Counted s' places := by
  obtain ⟨-, n, db, hr, rfl⟩ := hs
  have next : db.nextJobId = s.db.nextJobId := by
    cases hr
    rfl
  refine h.frame (fun j hj => ?_) next rfl rfl
  obtain ⟨j', hj', rfl⟩ := (JobRepository.mem_resetRunningToPending hr).mp hj
  obtain ⟨attempt, more', count, origin⟩ := h.rows j' hj'
  split
  · rename_i running
    exact ⟨attempt, fun _ => more j' hj' running, count, origin⟩
  · exact ⟨attempt, more', count, origin⟩

end Counted

private theorem counted_keeps : (jobPlaces ι registered).Keeps
    (jobSystem registered follows crashes Queue.RunningHaveMore)
    fun s places => Exclusive s places ∧ Counted s places where
  begins s places i p h may _ := by
    obtain ⟨working, manned, fits⟩ := fits_root may
    exact ⟨_, fits, h.1.begin manned, h.2.update fun job hj => (by cases hj)⟩
  op s places i o ch h ready ok :=
    ⟨exclusive_keeps.op s places i o ch h.1 ready ok,
      h.2.move h.1 (.of_ready ready ok fun l hl => (h.1.row i l hl).1)⟩
  env s t places h ht := by
    refine ⟨exclusive_keeps.env s t places h.1 ht, ?_⟩
    rcases ht with hd | ⟨hb, more⟩
    · exact h.2.deletesOldJobs hd
    · exact h.2.afterBoot more hb
  crash s t places h ht := by
    refine ⟨exclusive_keeps.crash s t places h.1 ht, ?_⟩
    obtain ⟨-, rfl⟩ := ht
    obtain ⟨rows, -, bound, known, old, unique⟩ := h.2
    exact (Counted.mk rows (fun i job hj => (by cases hj)) bound known old unique).frame rows rfl rfl rfl

/-- From an empty queue, in every run in which no restart finds a running job at its last attempt: no row's
attempts exceed its limit, and what is dispatched are jobs that were enqueued, each at most so often. -/
theorem attempts_bounded {s : Queue ι} (empty : ∀ j, j ∉ s.db.jobs) (dispatched : s.dispatched = [])
    (enqueued : s.enqueued = []) {c : Config (jobQueue ι registered) ι RoundEnd}
    (run : (jobSystem registered follows crashes Queue.RunningHaveMore).Reaches (.idle s) c) :
    (∀ j ∈ c.state.db.jobs, j.attempt ≤ j.maxAttempts) ∧
      (∀ id ∈ c.state.dispatched, ∃ t job, (t, job) ∈ c.state.enqueued ∧ job.id = id) ∧
      ∀ t job, (t, job) ∈ c.state.enqueued → c.state.dispatched.count job.id ≤ job.maxAttempts := by
  have initial : Counted s fun _ => (jobPlaces ι registered).start := by
    refine ⟨fun j hj => absurd hj (empty j), fun i job hj => (by cases hj), fun t job hm => ?_, fun id hid => ?_,
      fun t job hm => ?_, fun t job t' job' hm => ?_⟩
    · rw [enqueued] at hm
      cases hm
    · rw [dispatched] at hid
      cases hid
    · rw [enqueued] at hm
      cases hm
    · rw [enqueued] at hm
      cases hm
  obtain ⟨places, -, -, h⟩ := counted_keeps.reaches ((jobPlaces ι registered).linked_idle s)
    ⟨.unheld (fun _ => ⟨rfl, rfl⟩) fun j hj => absurd hj (empty j), initial⟩ run
  exact ⟨fun j hj => (h.rows j hj).attempt, h.known, h.bound⟩

/-- A job is enqueued, then the process crashes. -/
def afterEnqueue : Queue Nat :=
  (atWork smoothly (enqueueRaw "parse_message" waitingJob.payload PRIORITY_INGEST) noJobs 2).state.restarted

/-- A worker takes the job to its handler, in which the process crashes. -/
def afterCrash (s : Queue Nat) : Queue Nat := (atWork smoothly (workerRound 0) s 4).state.restarted

private theorem reaches_afterEnqueue {boots : Queue Nat → Prop}
    (boot : boots (atWork smoothly (enqueueRaw "parse_message" waitingJob.payload PRIORITY_INGEST) noJobs 2).state.crashed) :
    (jobSystem (fun _ => true) (fun _ _ => True) True boots).Reaches (.idle noJobs) (.idle afterEnqueue) :=
  (reaches_atWork smoothly_allowed (.inr ⟨_, _, _, 0, rfl⟩) 2).trans (reaches_restarted boot)

private theorem reaches_afterCrash {boots : Queue Nat → Prop} {s : Queue Nat} (started : s.started = true)
    (boot : boots (atWork smoothly (workerRound 0) s 4).state.crashed) :
    (jobSystem (fun _ => true) (fun _ _ => True) True boots).Reaches (.idle s) (.idle (afterCrash s)) :=
  (reaches_atWork smoothly_allowed (.inl ⟨started, rfl⟩) 4).trans (reaches_restarted boot)

/-- The job is tried a second time after a crash in its first attempt. -/
theorem attempts_bounded_afterCrash :
    (atWork smoothly (workerRound 0) (afterCrash afterEnqueue) 4).state.dispatched = [0, 0] ∧
      ∀ j ∈ (atWork smoothly (workerRound 0) (afterCrash afterEnqueue) 4).state.db.jobs,
        j.attempt ≤ j.maxAttempts := by
  have boot : (atWork smoothly (enqueueRaw "parse_message" waitingJob.payload PRIORITY_INGEST) noJobs 2).state.crashed.RunningHaveMore :=
    fun j hj => by rcases List.mem_singleton.mp hj with rfl; decide
  have boot' : (atWork smoothly (workerRound 0) afterEnqueue 4).state.crashed.RunningHaveMore :=
    fun j hj => by rcases List.mem_singleton.mp hj with rfl; decide
  exact ⟨rfl, (attempts_bounded (fun j => Keyed.Table.not_mem_empty j) rfl rfl
    (((reaches_afterEnqueue boot).trans (reaches_afterCrash rfl boot')).trans
      (reaches_atWork smoothly_allowed (.inl ⟨rfl, rfl⟩) 4))).1⟩

/-- A job whose handler crashes the process is tried again after each restart, its last attempt or not. -/
theorem attempts_exceeded_by_crashes : ∃ c : Config (jobQueue Nat fun _ => true) Nat RoundEnd,
    (jobSystem (fun _ => true) (fun _ _ => True) True fun _ => True).Reaches (.idle noJobs) c ∧
      (∃ j ∈ c.state.db.jobs, j.maxAttempts < j.attempt) ∧
      ∃ t job, (t, job) ∈ c.state.enqueued ∧ job.maxAttempts < c.state.dispatched.count job.id := by
  refine ⟨atWork smoothly (workerRound 0) (afterCrash (afterCrash (afterCrash afterEnqueue))) 4,
    ((((reaches_afterEnqueue trivial).trans (reaches_afterCrash rfl trivial)).trans (reaches_afterCrash rfl trivial)).trans
      (reaches_afterCrash rfl trivial)).trans (reaches_atWork smoothly_allowed (.inl ⟨rfl, rfl⟩) 4), ?_, ?_⟩
  · exact ⟨_, List.mem_singleton.mpr rfl, by decide⟩
  · exact ⟨0, waitingJob, List.mem_singleton.mpr rfl, by decide⟩

end MailKeep
