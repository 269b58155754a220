import MailKeep.Jobs.Lease

/-! No job has two workers, what a worker holds is what the table says, and a job that has ended stays so. -/
namespace MailKeep
open Program

variable {ι : Type} [DecidableEq ι] {registered : String → Bool} {follows : DateTimeUtc → DateTimeUtc → Prop}
  {crashes : Prop} {boots : Queue ι → Prop}

def Job.Ended (j : Job) : Prop := j.status = .completed ∨ j.status = .failed

/-- The row is the only one its id will ever have, while it is there. -/
structure Frozen (row : Job) (s : Queue ι) : Prop where
  ended : row.Ended
  old : row.id < s.db.nextJobId
  same : ∀ j ∈ s.db.jobs, j.id = row.id → j = row

namespace Frozen
variable {row : Job} {s s' : Queue ι} {places : ι → Place} {i : ι} {place : Place}

omit [DecidableEq ι]

private theorem frame (h : Frozen row s) (db : s'.db = s.db) : Frozen row s' :=
  ⟨h.ended, db ▸ h.old, db ▸ h.same⟩

/-- Another job's row is rewritten. -/
private theorem rewritten (h : Frozen row s) {f : Job → Job} {j : Job} (step : Job.Rewritten f j s.db s'.db)
    (same : (f j).id = j.id) (live : ¬ j.Ended) : Frozen row s' := by
  refine ⟨h.ended, step.nextJobId ▸ h.old, fun j' hj' hid => ?_⟩
  rcases (step.jobs j').mp hj' with rfl | ⟨hj', -⟩
  · have he : j = row := h.same j step.mem (same ▸ hid)
    exact absurd (he ▸ h.ended) live
  · exact h.same j' hj' hid

private theorem move [DecidableEq ι] (h : Frozen row s) (exclusive : Exclusive s places)
    (m : Move follows i s (places i) s' place) : Frozen row s' := by
  cases m with
  | claimSome now time working free j db pending step => exact h.rewritten step rfl (by simp [Job.Ended, pending])
  | report now time job held f db step leaves =>
    have running : job.status = .running := (exclusive.row i _ held).2
    exact h.rewritten step leaves.id (by simp [Job.Ended, running])
  | enqueue now time delay job db new =>
    refine ⟨h.ended, ?_, fun j hj hid => ?_⟩
    · exact new.nextJobId ▸ Nat.lt_succ_of_lt h.old
    · rcases (new.jobs j).mp hj with hj | rfl
      · exact h.same j hj hid
      · exact absurd h.old (by rw [← hid, new.id]; exact Nat.lt_irrefl _)
  | _ => exact h.frame rfl

private theorem deletesOldJobs (h : Frozen row s) (hs : s.DeletesOldJobs s') : Frozen row s' := by
  obtain ⟨cutoff, n, db, hd, rfl⟩ := hs
  obtain ⟨rest, sub, -⟩ := JobRepository.deleteOldJobs_ok hd
  refine ⟨h.ended, ?_, fun j hj => h.same j (sub j hj)⟩
  rw [rest]
  exact h.old

private theorem afterBoot (h : Frozen row s) (hs : s.Boots s') : Frozen row s' := by
  obtain ⟨-, n, db, hr, rfl⟩ := hs
  refine ⟨h.ended, (by cases hr; exact h.old), fun j hj hid => ?_⟩
  obtain ⟨j', hj', rfl⟩ := (JobRepository.mem_resetRunningToPending hr).mp hj
  split at hid
  · rename_i running
    have he : j' = row := h.same j' hj' hid
    rcases h.ended with done | done <;> simp [← he, running] at done
  · rename_i running
    rw [if_neg running]
    exact h.same j' hj' hid

end Frozen

private theorem frozen_keeps (row : Job) : (jobPlaces ι registered).Keeps (jobSystem registered follows crashes boots)
    fun s places => Exclusive s places ∧ Frozen row s where
  begins s places i p h may idle := by
    obtain ⟨place, fits, exclusive⟩ := exclusive_keeps.begins s places i p h.1 may idle
    exact ⟨place, fits, exclusive, h.2⟩
  op s places i o ch h ready ok :=
    ⟨exclusive_keeps.op s places i o ch h.1 ready ok,
      h.2.move h.1 (.of_ready ready ok fun l hl => (h.1.row i l hl).1)⟩
  env s t places h ht := by
    refine ⟨exclusive_keeps.env s t places h.1 ht, ?_⟩
    rcases ht with hd | ⟨hb, -⟩
    · exact h.2.deletesOldJobs hd
    · exact h.2.afterBoot hb
  crash s t places h ht := by
    refine ⟨exclusive_keeps.crash s t places h.1 ht, ?_⟩
    obtain ⟨-, rfl⟩ := ht
    exact h.2.frame rfl

/-- In every run: no two workers hold one job; the job a worker holds stands in the table as he has it
and is running, so a job in any other state is nobody's and his report meets no conflict; and a job
that has completed or failed stays as it is for as long as it is there. -/
theorem claims_exclusive {s : Queue ι} (fresh : ∀ j ∈ s.db.jobs, j.id < s.db.nextJobId)
    {c : Config (jobQueue ι registered) ι RoundEnd} (run : (jobSystem registered follows crashes boots).Reaches (.idle s) c) :
    (∀ i k job job', Holds c i job → Holds c k job' → job.id = job'.id → i = k) ∧
      (∀ i job, Holds c i job → job ∈ c.state.db.jobs ∧ job.status = .running) ∧
      (∀ row ∈ c.state.db.jobs, row.status ≠ .running → ∀ i job, Holds c i job → job.id ≠ row.id) ∧
      (∀ i job, Holds c i job → ∀ (r : Report) now, ∃ updated db, r.body now job c.state.db = .ok (updated, db)) ∧
      ∀ row ∈ c.state.db.jobs, row.Ended → ∀ c', (jobSystem registered follows crashes boots).Reaches c c' →
        ∀ row' ∈ c'.state.db.jobs, row'.id = row.id → row' = row := by
  obtain ⟨places, linked, h⟩ := exclusive_keeps.reaches ((jobPlaces ι registered).linked_idle s)
    (Exclusive.unheld (fun _ => ⟨rfl, rfl⟩) fresh) run
  have row : ∀ {i job}, Holds c i job → job ∈ c.state.db.jobs ∧ job.status = .running := by
    intro i job held
    obtain ⟨dispatched, hl⟩ := (holds_iff linked).mp held
    exact h.row i _ hl
  refine ⟨fun i k job job' held held' same => ?_, fun i job held => row held, fun r hr idle i job held same => ?_,
    fun i job held r now => r.body_of_mem now (row held).1, fun r hr ended c' run' r' hr' same => ?_⟩
  · obtain ⟨_, hl⟩ := (holds_iff linked).mp held
    obtain ⟨_, hl'⟩ := (holds_iff linked).mp held'
    exact h.alone i k _ _ hl hl' same
  · obtain ⟨hj, running⟩ := row held
    exact idle (Keyed.Table.eq_of_key hj hr same ▸ running)
  · obtain ⟨_, -, -, frozen⟩ := (frozen_keeps r).reaches linked
      ⟨h, ended, h.fresh r hr, fun j hj hid => Keyed.Table.eq_of_key hj hr hid⟩ run'
    exact frozen.same r' hr' same

private def twoJobs : Queue Nat :=
  { oneJob with db := { oneJob.db with jobs := ⟨[waitingJob, { waitingJob with id := 1 }], by decide⟩, nextJobId := 2 } }

/-- Two workers have claimed a job each, one in between the other's steps. -/
private def twoClaimed : Config (jobQueue Nat fun _ => true) Nat RoundEnd :=
  [0, 1, 0, 1, 1, 0].foldl (fun c i => c.advance smoothly i)
    (((Config.idle twoJobs).set twoJobs 0 (workerRound 0)).set twoJobs 1 (workerRound 1))

theorem claims_exclusive_twoWorkers : ∃ c : Config (jobQueue Nat fun _ => true) Nat RoundEnd, ∃ job job',
    (jobSystem (fun _ => true) (fun _ _ => True) False fun _ => True).Reaches (.idle twoJobs) c ∧
      Holds c 0 job ∧ Holds c 1 job' ∧ job.id ≠ job'.id ∧ job.status = .running ∧ job'.status = .running := by
  let sys := jobSystem (ι := Nat) (fun _ => true) (fun _ _ => True) False fun _ => True
  have working (i : Nat) : sys.root twoJobs i (workerRound i) := Or.inl ⟨rfl, rfl⟩
  have started : sys.Reaches (.idle twoJobs)
      (((Config.idle twoJobs).set twoJobs 0 (workerRound 0)).set twoJobs 1 (workerRound 1)) :=
    (Relation.ReflTransGen.single (System.step_start rfl (working 0))).tail (System.step_start rfl (working 1))
  have run : sys.Reaches (.idle twoJobs) twoClaimed :=
    started.trans (System.reaches_schedule (fun _ => smoothly_allowed) _ [0, 1, 0, 1, 1, 0])
  have held : Holds twoClaimed 1 (waitingJob.claimed 0) :=
    ⟨handleJob (waitingJob.claimed 0), rfl, rfl, fun r => by cases r <;> rfl⟩
  have held' : Holds twoClaimed 0 ({ waitingJob with id := 1 }.claimed 0) :=
    ⟨handleJob ({ waitingJob with id := 1 }.claimed 0), rfl, rfl, fun r => by cases r <;> rfl⟩
  obtain ⟨alone, row, -⟩ := claims_exclusive (fun j hj => by
    rcases List.mem_cons.mp hj with rfl | hj
    · decide
    · rcases List.mem_singleton.mp hj with rfl
      decide) run
  exact ⟨_, _, _, run, held', held, fun same => absurd (alone 0 1 _ _ held' held same) (by decide),
    (row 0 _ held').2, (row 1 _ held).2⟩

end MailKeep
