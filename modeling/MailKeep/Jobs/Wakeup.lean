import MailKeep.Jobs.Exclusivity
import MailKeep.Program.Safe

/-! A worker enables its notification, looks for work, then waits; a caller commits the row, then notifies.
No job that is due falls between the two. -/
namespace MailKeep
open Program

variable {ι : Type} [DecidableEq ι] {registered : String → Bool} {follows : DateTimeUtc → DateTimeUtc → Prop}
  {crashes : Prop} {boots : Queue ι → Prop}

/-- The job was due when it was enqueued and has not been put off since. -/
def Job.DueAtOnce (s : Queue ι) (j : Job) : Prop :=
  ∃ t job, (t, job) ∈ s.enqueued ∧ job.id = j.id ∧ j.scheduledAt ≤ t

/-- A worker whose notification has not fired since its claim found nothing misses no job that is due. -/
structure Wakeful (s : Queue ι) (places : ι → Place) : Prop where
  unfired : ∀ i, (places i).searched = true → s.waiting i = some false →
    ∀ j ∈ s.db.jobs, j.status = .pending → j.DueAtOnce s → j.id ∉ s.notified
  past : ∀ t job, (t, job) ∈ s.enqueued → t ≤ s.clock
  owed : ∀ i id, (places i).owed = some id → id < s.db.nextJobId
  notified : ∀ id ∈ s.notified, id < s.db.nextJobId
  off : s.started = false → ∀ i, s.waiting i = none

namespace Wakeful
variable {s s' : Queue ι} {places : ι → Place} {i : ι} {place : Place}

omit [DecidableEq ι] in
/-- The table may lose what is due, the clock may go on. -/
private theorem frame (h : Wakeful s places)
    (jobs : ∀ j ∈ s'.db.jobs, j.status = .pending → j.DueAtOnce s → j ∈ s.db.jobs)
    (next : s'.db.nextJobId = s.db.nextJobId)
    (clock : s.clock ≤ s'.clock) (started : s'.started = s.started) (waiting : s'.waiting = s.waiting)
    (enqueued : s'.enqueued = s.enqueued) (notified : s'.notified = s.notified) : Wakeful s' places := by
  refine ⟨fun i searched unfired j hj pending due => ?_, fun t job hm => ?_, next ▸ h.owed, ?_, ?_⟩
  · have due' : j.DueAtOnce s := by
      unfold Job.DueAtOnce
      rw [← enqueued]
      exact due
    rw [notified]
    exact h.unfired i searched (waiting ▸ unfired) j (jobs j hj pending due') pending due'
  · exact (h.past t job (enqueued ▸ hm)).trans clock
  · rw [notified, next]
    exact h.notified
  · rw [started, waiting]
    exact h.off

private theorem update (h : Wakeful s places)
    (unfired : place.searched = true → s.waiting i = some false →
      ∀ j ∈ s.db.jobs, j.status = .pending → j.DueAtOnce s → j.id ∉ s.notified)
    (owed : ∀ id, place.owed = some id → id < s.db.nextJobId) : Wakeful s (Function.update places i place) := by
  refine ⟨fun k searched => ?_, h.past, fun k id hk => ?_, h.notified, h.off⟩
  · rw [Function.update_apply] at searched
    split at searched
    · rename_i hk
      exact hk ▸ unfired searched
    · exact h.unfired k searched
  · rw [Function.update_apply] at hk
    split at hk
    · exact owed id hk
    · exact h.owed k id hk

private theorem stay (h : Wakeful s places) (searched : place.searched = (places i).searched)
    (owed : place.owed = (places i).owed) : Wakeful s (Function.update places i place) :=
  h.update (fun hs => h.unfired i (searched ▸ hs)) (owed ▸ h.owed i)

private theorem setWaiting (h : Wakeful s places) {fired : Option Bool} (manned : fired ≠ none → s.started = true)
    (idle : fired ≠ some false ∨ (places i).searched = false) : Wakeful (s.setWaiting i fired) places := by
  refine ⟨fun k searched unfired => ?_, h.past, h.owed, h.notified, fun off k => ?_⟩
  · change Function.update s.waiting i fired k = some false at unfired
    rw [Function.update_apply] at unfired
    split at unfired
    · rename_i hk
      rcases idle with hf | hs
      · exact absurd unfired hf
      · rw [hk, hs] at searched
        cases searched
    · exact h.unfired k searched unfired
  · change Function.update s.waiting i fired k = none
    rw [Function.update_apply]
    split
    · by_contra hne
      exact absurd (manned hne) (by simp [show s.started = false from off])
    · exact h.off off k

omit [DecidableEq ι] in
private theorem enqueue (h : Wakeful s places) {now delay : DateTimeUtc}
    (time : s.clock ≤ now) {job : Job} {db : Database} (row : JobRepository.Enqueued now delay job s.db db) :
    Wakeful { s with db := db, clock := now, enqueued := (now, job) :: s.enqueued } places := by
  have later : ∀ {id}, id < s.db.nextJobId → id < db.nextJobId :=
    fun hid => row.nextJobId ▸ Nat.lt_succ_of_lt hid
  refine ⟨fun i searched unfired j hj pending due hn => ?_, fun t job' hm => ?_, fun i id hi => later (h.owed i id hi),
    fun id hid => later (h.notified id hid), h.off⟩
  · have old : j.id ≠ job.id := fun he => absurd (h.notified _ hn) (by rw [he, row.id]; exact Nat.lt_irrefl _)
    have hj : j ∈ s.db.jobs := by
      rcases (row.jobs j).mp hj with hj | rfl
      · exact hj
      · exact absurd rfl old
    obtain ⟨t, job', hm, he, hd⟩ := due
    rcases List.mem_cons.mp hm with hm | hm
    · cases hm
      exact old he.symm
    · exact h.unfired i searched unfired j hj pending ⟨t, job', hm, he, hd⟩ hn
  · rcases List.mem_cons.mp hm with hm | hm
    · cases hm
      exact le_refl now
    · exact (h.past t job' hm).trans time

omit [DecidableEq ι] in
/-- After `notify_waiters` no enabled notification is left that has not fired. -/
private theorem notify (h : Wakeful s places) {jobId : JobId} (owed : (places i).owed = some jobId) :
    Wakeful (s.notify jobId) places := by
  refine ⟨fun k searched unfired => ?_, h.past, h.owed, fun id hid => ?_, fun off k => ?_⟩
  · change (s.waiting k).map (fun _ => true) = some false at unfired
    cases hw : s.waiting k <;> simp [hw] at unfired
  · rcases List.mem_cons.mp hid with rfl | hid
    · exact h.owed i id owed
    · exact h.notified id hid
  · change (s.waiting k).map (fun _ => true) = none
    rw [h.off off k]
    rfl

private theorem move (h : Wakeful s places) (exclusive : Exclusive s places)
    (m : Move (· ≤ ·) i s (places i) s' place) : Wakeful s' (Function.update places i place) := by
  have same : ∀ {clock : DateTimeUtc}, clock = s.clock ∨ s.clock ≤ clock →
      Wakeful { s with clock := clock } places :=
    fun time => h.frame (fun _ hj _ _ => hj) rfl (time.elim (fun he => he.ge) id) rfl rfl rfl rfl
  cases m with
  | rest => exact h.stay rfl rfl
  | enable working =>
    have resting : Wakeful s (Function.update places i { places i with searched := false }) :=
      h.update (fun searched => (by cases searched)) (h.owed i)
    exact resting.setWaiting (fun _ => exclusive.manned i working) (.inr (by rw [Function.update_self]))
  | wait => exact (h.setWaiting (fun hne => absurd rfl hne) (.inl (by simp))).stay rfl rfl
  | claimFailed now time => exact (same time).update (fun searched => (by cases searched)) (h.owed i)
  | claimNone now time nothing =>
    refine (same (.inr time)).update (fun _ _ j hj pending due => ?_) (h.owed i)
    obtain ⟨t, job, hm, -, hd⟩ := due
    have waits : now < j.scheduledAt := nothing j hj pending
    exact absurd ((hd.trans (h.past t job hm)).trans time) (not_le.mpr waits)
  | claimSome now time working free j db pending row =>
    have taken : Wakeful { s with db := db, clock := now } places := by
      refine h.frame (fun j' hj' waits _ => ?_) row.nextJobId time rfl rfl rfl rfl
      rcases (row.jobs j').mp hj' with rfl | ⟨hj', -⟩
      · cases waits
      · exact hj'
    exact taken.update (fun searched => (by cases searched)) fun id hid => row.nextJobId ▸ h.owed i id hid
  | dispatch job held => exact Wakeful.stay (h.frame (fun _ hj _ _ => hj) rfl le_rfl rfl rfl rfl rfl) rfl rfl
  | report now time job held f db row leaves =>
    have left : Wakeful { s with db := db, clock := now } places := by
      refine h.frame (fun j hj pending due => ?_) row.nextJobId time rfl rfl rfl rfl
      rcases (row.jobs j).mp hj with rfl | ⟨hj, -⟩
      · obtain ⟨t, job', hm, -, hd⟩ := due
        have put_off : now < (f job).scheduledAt := by
          rw [(leaves.retry pending).2]
          exact Int.lt_add_of_pos_right now (JobRepository.backoff_pos job.attempt)
        exact absurd ((hd.trans (h.past t job' hm)).trans time) (not_le.mpr put_off)
      · exact hj
    exact left.stay rfl rfl
  | reportFailed job held => exact Wakeful.stay (h.frame (fun _ hj _ _ => hj) rfl le_rfl rfl rfl rfl rfl) rfl rfl
  | enqueueFailed now time => exact (same time).stay rfl rfl
  | enqueue now time delay job db row =>
    refine Wakeful.update (h.enqueue time row) ((h.enqueue time row).unfired i) fun id hid => ?_
    obtain rfl := Option.some.inj hid
    change job.id < db.nextJobId
    rw [row.nextJobId, row.id]
    exact Nat.lt_succ_self _
  | notify jobId owed => exact (h.notify owed).stay rfl rfl

omit [DecidableEq ι] in
private theorem deletesOldJobs (h : Wakeful s places) (hs : s.DeletesOldJobs s') : Wakeful s' places := by
  obtain ⟨cutoff, n, db, hd, rfl⟩ := hs
  obtain ⟨rest, sub, -⟩ := JobRepository.deleteOldJobs_ok hd
  have next : db.nextJobId = s.db.nextJobId := by
    rw [rest]
  exact h.frame (fun j hj _ _ => sub j hj) next le_rfl rfl rfl rfl rfl

omit [DecidableEq ι] in
/-- The subsystem starts where nobody waits. -/
private theorem afterBoot (h : Wakeful s places) (hs : s.Boots s') : Wakeful s' places := by
  obtain ⟨off, n, db, hr, rfl⟩ := hs
  refine ⟨fun i _ unfired => ?_, h.past, ?_, ?_, fun on => (by cases on)⟩
  · cases (h.off off i).symm.trans unfired
  · cases hr
    exact h.owed
  · cases hr
    exact h.notified

end Wakeful

private theorem wakeful_keeps : (jobPlaces ι registered).Keeps (jobSystem registered (· ≤ ·) crashes boots)
    fun s places => Exclusive s places ∧ Wakeful s places where
  begins s places i p h may _ := by
    obtain ⟨working, manned, fits⟩ := fits_root may
    exact ⟨_, fits, h.1.begin manned, h.2.update (fun searched => (by cases searched)) fun id hid => (by cases hid)⟩
  op s places i o ch h ready ok :=
    ⟨exclusive_keeps.op s places i o ch h.1 ready ok,
      h.2.move h.1 (.of_ready ready ok fun l hl => (h.1.row i l hl).1)⟩
  env s t places h ht := by
    refine ⟨exclusive_keeps.env s t places h.1 ht, ?_⟩
    rcases ht with hd | ⟨hb, -⟩
    · exact h.2.deletesOldJobs hd
    · exact h.2.afterBoot hb
  crash s t places h ht := by
    refine ⟨exclusive_keeps.crash s t places h.1 ht, ?_⟩
    obtain ⟨-, rfl⟩ := ht
    exact ⟨fun i searched => (by cases searched), h.2.past, fun i id hid => (by cases hid), h.2.notified, fun _ _ => rfl⟩

section
variable (registered follows)

private def telling : Contract (jobQueue ι registered) where
  allowed := queueAllowed registered follows
  valid _ := True
  rely s t := ∀ id ∈ s.notified, id ∈ t.notified
  guar s t := ∀ id ∈ s.notified, id ∈ t.notified

private def Told (a : RoundEnd) (s : Queue ι) : Prop := ∀ id, a = .enqueued (.ok id) → id ∈ s.notified

private theorem telling_stable : (telling (ι := ι) registered follows).Stable :=
  ⟨fun _ _ h => h, fun h h' id hid => h' id (h id hid)⟩

end

private theorem exec_notified (o : JobOp ι) (ch : JobOp.Choice o) (s : Queue ι) :
    ∀ id ∈ s.notified, id ∈ ((jobQueue ι registered).exec o ch s).2.notified := by
  intro id hid
  cases o with
  | notifyWaiters jobId => exact List.mem_cons_of_mem _ hid
  | claimNext =>
    change id ∈ (s.transact JobRepository.claimNext ch).2.notified
    rcases s.transact_cases JobRepository.claimNext ch with ⟨e, -, h⟩ | ⟨now, -, ⟨e, -, h⟩ | ⟨found, db, -, h⟩⟩ <;>
      (rw [h]; exact hid)
  | report job r =>
    change id ∈ (Queue.noteReport job (s.transact (r.body · job) ch)).2.notified
    rcases s.transact_cases (r.body · job) ch with ⟨e, -, h⟩ | ⟨now, -, ⟨e, -, h⟩ | ⟨updated, db, -, h⟩⟩ <;>
      (rw [h]; exact hid)
  | enqueue jobType payload priority delay =>
    change id ∈ (Queue.noteEnqueued (s.transact (JobRepository.enqueueDelayed · jobType payload priority delay) ch)).2.notified
    rcases s.transact_cases (JobRepository.enqueueDelayed · jobType payload priority delay) ch with
      ⟨e, -, h⟩ | ⟨now, -, ⟨e, -, h⟩ | ⟨job, db, -, h⟩⟩ <;>
      (rw [h]; exact hid)
  | _ => exact hid

private def Mute : JobProg ι RoundEnd → Prop
  | .ret a => ∀ id, a ≠ .enqueued (.ok id)
  | .call _ next => ∀ r, Mute (next r)

private theorem Mute.safe {p : JobProg ι RoundEnd} (mute : Mute p) (s : Queue ι) :
    Safe (telling registered follows) Told p s := by
  induction p generalizing s with
  | ret a => exact fun _ _ _ id he => absurd he (mute id)
  | call o next ih => exact fun s₁ _ _ c _ => ⟨trivial, exec_notified o c s₁, ih _ (mute _) _⟩

omit [DecidableEq ι] in
private theorem mute_afterError (e : Error) : Mute (afterError (ι := ι) e) := by
  unfold afterError
  split
  · intro shutdown
    cases shutdown <;> exact fun _ he => (by cases he)
  · exact fun _ he => (by cases he)

omit [DecidableEq ι] in
private theorem mute_reportOutcome (job : Job) (r : Report) : Mute (reportOutcome (ι := ι) job r) := by
  intro reply
  cases reply with
  | ok _ => exact fun _ he => (by cases he)
  | error e => exact mute_afterError e

omit [DecidableEq ι] in
private theorem mute_workerRound (me : ι) : Mute (workerRound me) := by
  intro shutdown
  cases shutdown with
  | true => exact fun _ he => (by cases he)
  | false =>
    intro _ reply
    match reply with
    | .error e => exact mute_afterError e
    | .ok none =>
      intro shutdown
      cases shutdown <;> exact fun _ he => (by cases he)
    | .ok (some job) =>
      intro reply
      cases reply with
      | ok _ => exact mute_reportOutcome job _
      | error e => exact mute_reportOutcome job _

private theorem safe_enqueueRawDelayed (jobType : String) (payload : ParseMessageJob)
    (priority delay : Int) (s : Queue ι) :
    Safe (telling registered follows) Told (enqueueRawDelayed jobType payload priority delay) s := by
  refine fun s₁ _ _ c _ => ⟨trivial, exec_notified (.enqueue jobType payload priority delay) c s₁, ?_⟩
  generalize (jobQueue ι registered).exec (.enqueue jobType payload priority delay) c s₁ = reply
  obtain ⟨reply, t⟩ := reply
  cases reply with
  | error e => exact fun _ _ _ id he => (by cases he)
  | ok job =>
    refine fun t₁ _ _ c _ => ⟨trivial, exec_notified (.notifyWaiters job.id) c t₁, fun u _ rely id he => ?_⟩
    cases he
    exact rely _ (List.mem_cons_self ..)

private theorem telling_sound : (jobSystem (ι := ι) registered follows crashes boots).Sound
    (fun _ => telling registered follows) (fun _ => Told) fun _ => True where
  stable _ := telling_stable registered follows
  valid_iff _ _ := Iff.rfl
  allows _ _ _ _ h := h
  agree _ _ _ _ _ _ _ h := h
  root s i p _ may := by
    rcases may with ⟨-, rfl⟩ | ⟨jobType, payload, priority, delay, rfl⟩
    · exact (mute_workerRound i).safe s
    · exact safe_enqueueRawDelayed jobType payload priority delay s
  env s t _ ht := by
    refine ⟨trivial, fun i id hid => ?_⟩
    rcases ht with ⟨_, _, _, -, rfl⟩ | ⟨⟨-, _, _, -, rfl⟩, -⟩
    · exact hid
    · exact hid
  crash _ _ _ _ := trivial

/-- No wake-up is lost: a call of `enqueue` that has returned has notified, and while a worker is parked
with a notification that has not fired, no job waits that was notified for, was due when it was enqueued
and has not been put off since. -/
theorem no_lost_wakeup {s : Queue ι} (fresh : ∀ j ∈ s.db.jobs, j.id < s.db.nextJobId)
    (waiting : ∀ i, s.waiting i = none)
    (enqueued : s.enqueued = []) (notified : s.notified = []) {c : Config (jobQueue ι registered) ι RoundEnd}
    (run : (jobSystem registered (· ≤ ·) crashes boots).Reaches (.idle s) c) :
    (∀ i id, c.threads i = some (.ret (.enqueued (.ok id))) → id ∈ c.state.notified) ∧
      ∀ i next, c.threads i = some (.call (.wait i) next) → c.state.waiting i = some false →
        ∀ j ∈ c.state.db.jobs, j.status = .pending → j.id ∈ c.state.notified → ¬ j.DueAtOnce c.state := by
  constructor
  · intro i id hi
    have safe := telling_sound.reaches (.idle trivial) run
    exact safe.returned i (telling_stable registered _) trivial hi id rfl
  · intro i next hi unfired j hj pending hn due
    have initial : Wakeful s fun _ => (jobPlaces ι registered).start := by
      refine ⟨fun i searched => (by cases searched), fun t job hm => ?_, fun i id hid => (by cases hid), fun id hid => ?_,
        fun _ => waiting⟩
      · rw [enqueued] at hm
        cases hm
      · rw [notified] at hid
        cases hid
    obtain ⟨places, linked, -, h⟩ := wakeful_keeps.reaches ((jobPlaces ι registered).linked_idle s)
      ⟨.unheld (fun _ => ⟨rfl, rfl⟩) fresh, initial⟩ run
    have searched : (places i).searched = true := ((linked i).1 _ hi).1.2.2
    exact h.unfired i searched unfired j hj pending due hn

/-- Nothing fails but the handler, and who waits goes on when it is notified. -/
private def restless : (o : JobOp Nat) → o.Choice
  | .wait _ => .notified
  | .dispatch _ => .error (.storageUnavailable "offline")
  | o => smoothly o

private def fourStarted : Config (jobQueue Nat fun _ => true) Nat RoundEnd :=
  ((((Config.idle noJobs).set noJobs 0 (workerRound 0)).set noJobs 1
    (enqueueRaw "parse_message" waitingJob.payload PRIORITY_INGEST)).set noJobs 2 (workerRound 2)).set noJobs 3 (workerRound 3)

private def fourEnded : Config (jobQueue Nat fun _ => true) Nat RoundEnd :=
  [0, 0, 0, 1, 1, 0, 2, 2, 2, 2, 2, 3, 3, 3].foldl (fun c i => c.advance restless i) fourStarted

/-- The first worker has enabled its notification and found nothing when the caller commits and notifies, and so it
goes on; the second one fails at the job; the third one enables its own, finds the job put off, and waits. -/
theorem no_lost_wakeup_notified : ∃ c : Config (jobQueue Nat fun _ => true) Nat RoundEnd, ∃ next, ∃ j ∈ c.state.db.jobs,
    (jobSystem (fun _ => true) (· ≤ ·) False fun _ => False).Reaches (.idle noJobs) c ∧
      c.threads 0 = some (.ret .again) ∧ c.threads 1 = some (.ret (.enqueued (.ok j.id))) ∧
      c.threads 3 = some (.call (.wait 3) next) ∧ c.state.waiting 3 = some false ∧
      j.status = .pending ∧ j.id ∈ c.state.notified ∧ ¬ j.DueAtOnce c.state := by
  let sys := jobSystem (ι := Nat) (fun _ => true) (· ≤ ·) False fun _ => False
  have working (i : Nat) : sys.root noJobs i (workerRound i) := Or.inl ⟨rfl, rfl⟩
  have calling : sys.root noJobs 1 (enqueueRaw "parse_message" waitingJob.payload PRIORITY_INGEST) :=
    Or.inr ⟨_, _, _, _, rfl⟩
  have started : sys.Reaches (.idle noJobs) fourStarted :=
    (((Relation.ReflTransGen.single (System.step_start rfl (working 0))).tail
      (System.step_start rfl calling)).tail (System.step_start rfl (working 2))).tail (System.step_start rfl (working 3))
  have now : (0 : Int) ≤ 0 := le_refl 0
  have permits : sys.Permits (fun _ => restless) fourStarted [0, 0, 0, 1, 1, 0, 2, 2, 2, 2, 2, 3, 3, 3] :=
    ⟨trivial, trivial, now, now, trivial, rfl, trivial, trivial, now, trivial, now, trivial, trivial, now, trivial⟩
  have run : sys.Reaches (.idle noJobs) fourEnded := started.trans permits.reaches
  obtain ⟨told, quiet⟩ := no_lost_wakeup (fun j hj => (by cases hj)) (fun _ => rfl) rfl rfl run
  obtain ⟨j, row, returned, pending⟩ : ∃ j ∈ fourEnded.state.db.jobs,
      fourEnded.threads 1 = some (.ret (.enqueued (.ok j.id))) ∧ j.status = .pending := by
    refine ⟨_, List.mem_singleton_self _, ?_, ?_⟩
    · rfl
    · rfl
  have notified := told 1 j.id returned
  exact ⟨_, _, j, row, run, rfl, returned, rfl, rfl, pending, notified, quiet 3 _ rfl rfl j row pending notified⟩

end MailKeep
