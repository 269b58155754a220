import MailKeep.Jobs.Exclusivity

/-! Who runs the running jobs: a worker that will report, or nobody, after a report that failed. -/
namespace MailKeep
open Program

variable {ι : Type} [DecidableEq ι] {registered : String → Bool} {follows : DateTimeUtc → DateTimeUtc → Prop}
  {boots : Queue ι → Prop}

def Place.job (place : Place) : Option Job := place.held.map Lease.job

/-- Each running job is some worker's or its report has failed; in that case it is nobody's. -/
structure Attended (s : Queue ι) (places : ι → Place) : Prop where
  running : ∀ j ∈ s.db.jobs, j.status = .running → (∃ i, (places i).job = some j) ∨ j.id ∈ s.unreported
  orphan : ∀ id ∈ s.unreported, ∃ j ∈ s.db.jobs, j.id = id ∧ j.status = .running ∧
    ∀ i job, (places i).job = some job → job.id ≠ id
  started : s.unreported ≠ [] → s.started = true

namespace Attended
variable {s s' : Queue ι} {places : ι → Place} {i : ι} {place : Place}

private theorem frame (h : Attended s places) (db : s'.db = s.db) (unreported : s'.unreported = s.unreported)
    (started : s'.started = s.started) (job : place.job = (places i).job) :
    Attended s' (Function.update places i place) := by
  have jobs : ∀ k, (Function.update places i place k).job = (places k).job := by
    intro k
    rw [Function.update_apply]
    split
    · rename_i hk
      rw [hk, job]
    · rfl
  refine ⟨fun j hj hr => ?_, fun id hid => ?_, fun hne => started ▸ h.started (unreported ▸ hne)⟩
  · rw [unreported]
    rcases h.running j (db ▸ hj) hr with ⟨k, hk⟩ | hu
    · exact .inl ⟨k, (jobs k).trans hk⟩
    · exact .inr hu
  · obtain ⟨j, hj, he, hr, free⟩ := h.orphan id (unreported ▸ hid)
    exact ⟨j, db ▸ hj, he, hr, fun k job hk => free k job ((jobs k).symm.trans hk)⟩

/-- The worker that held nothing holds the row it has claimed. -/
private theorem claim (h : Attended s places) {now : DateTimeUtc} {j : Job} {db : Database}
    (pending : j.status = .pending) (row : Job.Rewritten (·.claimed now) j s.db db) (free : (places i).held = none)
    (job : place.job = some (j.claimed now)) :
    Attended { s with db := db, clock := now } (Function.update places i place) := by
  refine ⟨fun j' hj' hr => ?_, fun id hid => ?_, h.started⟩
  · rcases (row.jobs j').mp hj' with rfl | ⟨hj', -⟩
    · exact .inl ⟨i, by rw [Function.update_self, job]⟩
    · refine (h.running j' hj' hr).imp (fun ⟨k, hk⟩ => ⟨k, ?_⟩) id
      have other : k ≠ i := by
        rintro rfl
        simp [Place.job, free] at hk
      rw [Function.update_of_ne other, hk]
  · obtain ⟨x, hx, rfl, running, none⟩ := h.orphan id hid
    have ne : x.id ≠ j.id := by
      intro he
      rw [Keyed.Table.eq_of_key hx row.mem he, pending] at running
      cases running
    refine ⟨x, (row.jobs x).mpr (.inr ⟨hx, ne⟩), rfl, running, fun k job' hk => ?_⟩
    rw [Function.update_apply] at hk
    split at hk
    · obtain rfl := Option.some.inj (job.symm.trans hk)
      exact ne.symm
    · exact none k job' hk

/-- The worker has reported, and the row is no longer running. -/
private theorem report (h : Attended s places) {now : DateTimeUtc} {job : Job} {f : Job → Job} {db : Database}
    (row : Job.Rewritten f job s.db db) (leaves : Report.Leaves now job (f job)) (held : (places i).job = some job)
    (free : place.job = none) : Attended { s with db := db, clock := now } (Function.update places i place) := by
  refine ⟨fun j hj hr => ?_, fun id hid => ?_, h.started⟩
  · rcases (row.jobs j).mp hj with rfl | ⟨hj, ne⟩
    · exact absurd hr leaves.idle
    · refine (h.running j hj hr).imp (fun ⟨k, hk⟩ => ⟨k, ?_⟩) id
      have other : k ≠ i := by
        rintro rfl
        exact ne (congrArg Job.id (Option.some.inj (hk.symm.trans held)))
      rw [Function.update_of_ne other, hk]
  · obtain ⟨x, hx, rfl, running, none⟩ := h.orphan id hid
    refine ⟨x, (row.jobs x).mpr (.inr ⟨hx, (none i job held).symm⟩), rfl, running, fun k job' hk => ?_⟩
    rw [Function.update_apply] at hk
    split at hk
    · rw [free] at hk
      cases hk
    · exact none k job' hk

/-- The report has failed: the row is running as before, and its worker goes on without it. -/
private theorem reportFailed (h : Attended s places) (exclusive : Exclusive s places) {job : Job}
    (held : (places i).held = some ⟨job, true⟩) (free : place.job = none) :
    Attended { s with unreported := job.id :: s.unreported } (Function.update places i place) := by
  have others : ∀ k job', (Function.update places i place k).job = some job' → k ≠ i ∧
      (places k).job = some job' := by
    intro k job' hk
    rw [Function.update_apply] at hk
    split at hk
    · rw [free] at hk
      cases hk
    · rename_i ne
      exact ⟨ne, hk⟩
  obtain ⟨hj, running⟩ := exclusive.row i _ held
  refine ⟨fun j hj' hr => ?_, fun id hid => ?_, fun _ => exclusive.manned i (exclusive.working i _ held)⟩
  · by_cases same : j.id = job.id
    · exact .inr (same ▸ List.mem_cons_self ..)
    · refine (h.running j hj' hr).imp (fun ⟨k, hk⟩ => ⟨k, ?_⟩) (List.mem_cons_of_mem _)
      have other : k ≠ i := by
        rintro rfl
        simp only [Place.job, held, Option.map_some, Option.some.injEq] at hk
        exact same (congrArg Job.id hk.symm)
      rw [Function.update_of_ne other, hk]
  · rcases List.mem_cons.mp hid with rfl | hid
    · refine ⟨job, hj, rfl, running, fun k job' hk same => ?_⟩
      obtain ⟨ne, hk⟩ := others k job' hk
      obtain ⟨l, hl, rfl⟩ := Option.map_eq_some_iff.mp hk
      exact ne (exclusive.alone k i l _ hl held same)
    · obtain ⟨x, hx, he, running, none⟩ := h.orphan id hid
      exact ⟨x, hx, he, running, fun k job' hk => none k job' (others k job' hk).2⟩

private theorem move (h : Attended s places) (exclusive : Exclusive s places)
    (m : Move follows i s (places i) s' place) : Attended s' (Function.update places i place) := by
  cases m with
  | claimSome now time working free j db pending row => exact h.claim pending row free rfl
  | dispatch job held => exact h.frame rfl rfl rfl (by simp [Place.job, held])
  | report now time job held f db row leaves => exact h.report row leaves (by simp [Place.job, held]) rfl
  | reportFailed job held => exact h.reportFailed exclusive held rfl
  | enqueue now time delay job db row =>
    have grown : Attended { s with db := db, clock := now, enqueued := (now, job) :: s.enqueued } places := by
      refine ⟨fun j hj hr => ?_, fun id hid => ?_, h.started⟩
      · rcases (row.jobs j).mp hj with hj | rfl
        · exact h.running j hj hr
        · rw [row.pending] at hr
          cases hr
      · obtain ⟨x, hx, rest⟩ := h.orphan id hid
        exact ⟨x, (row.jobs x).mpr (.inl hx), rest⟩
    exact grown.frame rfl rfl rfl rfl
  | _ => exact h.frame rfl rfl rfl rfl

omit [DecidableEq ι] in
private theorem deletesOldJobs (h : Attended s places) (hs : s.DeletesOldJobs s') : Attended s' places := by
  obtain ⟨cutoff, n, db, hd, rfl⟩ := hs
  obtain ⟨-, sub, kept⟩ := JobRepository.deleteOldJobs_ok hd
  refine ⟨fun j hj hr => h.running j (sub j hj) hr, fun id hid => ?_, h.started⟩
  obtain ⟨x, hx, he, running, none⟩ := h.orphan id hid
  exact ⟨x, kept x hx (.inr running), he, running, none⟩

omit [DecidableEq ι] in
private theorem afterBoot (h : Attended s places) (hs : s.Boots s') : Attended s' places := by
  obtain ⟨off, n, db, hr, rfl⟩ := hs
  have clean : s.unreported = [] := by
    by_contra hne
    simp [h.started hne] at off
  refine ⟨fun j hj running => ?_, fun id hid => ?_, fun _ => rfl⟩
  · obtain ⟨j', -, rfl⟩ := (JobRepository.mem_resetRunningToPending hr).mp hj
    split at running
    · cases running
    · contradiction
  · rw [clean] at hid
    cases hid

end Attended

private theorem attended_keeps : (jobPlaces ι registered).Keeps (jobSystem registered follows False boots)
    fun s places => Exclusive s places ∧ Attended s places where
  begins s places i p h may idle := by
    obtain ⟨working, manned, fits⟩ := fits_root may
    have free : (places i).held = none := idle.elim (fun hs => hs ▸ rfl) id
    exact ⟨_, fits, h.1.begin manned, h.2.frame rfl rfl rfl (by simp [Place.job, free])⟩
  op s places i o ch h ready ok :=
    ⟨exclusive_keeps.op s places i o ch h.1 ready ok,
      h.2.move h.1 (.of_ready ready ok fun l hl => (h.1.row i l hl).1)⟩
  env s t places h ht := by
    refine ⟨exclusive_keeps.env s t places h.1 ht, ?_⟩
    rcases ht with hd | ⟨hb, -⟩
    · exact h.2.deletesOldJobs hd
    · exact h.2.afterBoot hb
  crash s t places h ht := ht.1.elim

/-- Without a crash every running job is with a worker that will report on it exactly as long as no report
has failed. -/
theorem running_held_iff {s : Queue ι} (fresh : ∀ j ∈ s.db.jobs, j.id < s.db.nextJobId)
    (clean : ∀ j ∈ s.db.jobs, j.status ≠ .running) (unreported : s.unreported = [])
    {c : Config (jobQueue ι registered) ι RoundEnd} (run : (jobSystem registered follows False boots).Reaches (.idle s) c) :
    (∀ j ∈ c.state.db.jobs, j.status = .running → ∃ i, Holds c i j) ↔ c.state.unreported = [] := by
  have initial : Attended s fun _ => (jobPlaces ι registered).start := by
    refine ⟨fun j hj running => absurd running (clean j hj), fun id hid => ?_, fun hne => absurd unreported hne⟩
    rw [unreported] at hid
    cases hid
  obtain ⟨places, linked, -, h⟩ := attended_keeps.reaches ((jobPlaces ι registered).linked_idle s)
    ⟨.unheld (fun _ => ⟨rfl, rfl⟩) fresh, initial⟩ run
  have held : ∀ {i job}, Holds c i job ↔ (places i).job = some job := by
    intro i job
    rw [holds_iff linked, Place.job, Option.map_eq_some_iff]
    exact ⟨fun ⟨dispatched, hl⟩ => ⟨⟨job, dispatched⟩, hl, rfl⟩, fun ⟨l, hl, he⟩ => ⟨l.dispatched, he ▸ hl⟩⟩
  constructor
  · intro all
    by_contra hne
    obtain ⟨id, hid⟩ := List.exists_mem_of_ne_nil _ hne
    obtain ⟨j, hj, he, running, none⟩ := h.orphan id hid
    obtain ⟨i, hi⟩ := all j hj running
    exact none i j (held.mp hi) he
  · intro none j hj running
    rcases h.running j hj running with ⟨i, hi⟩ | hu
    · exact ⟨i, held.mpr hi⟩
    · rw [none] at hu
      cases hu

def duringOutage : (o : JobOp Nat) → o.Choice
  | .report _ _ => .error (.conn .io "connection lost")
  | o => smoothly o

theorem running_held_oneJob : (atWork smoothly (workerRound 0) oneJob 3).state.unreported = [] ∧
    ∀ j ∈ (atWork smoothly (workerRound 0) oneJob 3).state.db.jobs, j.status = .running →
      ∃ i, Holds (atWork smoothly (workerRound 0) oneJob 3) i j :=
  ⟨rfl, (@running_held_iff Nat _ (fun _ => true) (fun _ _ => True) (fun _ => True) oneJob
    (fun j hj => by rcases List.mem_singleton.mp hj with rfl; decide)
    (fun j hj => by rcases List.mem_singleton.mp hj with rfl; decide) rfl
    _ (reaches_atWork smoothly_allowed (.inl ⟨rfl, rfl⟩) 3)).mpr rfl⟩

/-- The worker whose report meets an outage of the database goes on, and the job stays running for nobody. -/
theorem running_unheld_after_outage : ∃ c : Config (jobQueue Nat fun _ => true) Nat RoundEnd,
    (jobSystem (fun _ => true) (fun _ _ => True) False fun _ => True).Reaches (.idle oneJob) c ∧
      (∀ i, ¬ c.Busy i) ∧ ∃ j ∈ c.state.db.jobs, j.status = .running ∧ ∀ i, ¬ Holds c i j := by
  refine ⟨atWork duringOutage (workerRound 0) oneJob 6, reaches_atWork (fun s o => by cases o <;> trivial) (.inl ⟨rfl, rfl⟩) 6, ?_, waitingJob.claimed 0,
    List.mem_singleton.mpr rfl, rfl, ?_⟩
  · rintro i ⟨o, next, hi⟩
    by_cases h : i = 0
    · subst h
      cases hi
    · rw [atWork_other _ _ _ _ h] at hi
      cases hi
  · rintro i ⟨p, hi, will⟩
    by_cases h : i = 0
    · subst h
      cases hi
      exact will
    · rw [atWork_other _ _ _ _ h] at hi
      cases hi

end MailKeep
