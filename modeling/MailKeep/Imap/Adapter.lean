import MailKeep.Accounts.Sync

/-! The adapter behind the sync port: a map of handles, and the tasks in the join set of each handle. -/
namespace MailKeep
open Program

inductive AdapterTaskKind
  | idle
  | poll
deriving DecidableEq

/-- A task that was spawned into a join set and has not ended. It is aborted when the join set is dropped, and it ends
at its next await then. -/
structure AdapterTask where
  accountId : AccountId
  kind : AdapterTaskKind
  folders : List FolderConfig
  set : Nat
  aborted : Bool
deriving DecidableEq

/-- A join set and the cancellation token of its tasks. `params` is a history: what the tasks were started with. -/
structure AccountHandle where
  set : Nat
  params : ImapConnectionParams
deriving DecidableEq

/-- The tasks of an account: at most one folder is idled on, the others are polled. -/
def ImapConnectionParams.tasks (params : ImapConnectionParams) (accountId : AccountId) (set : Nat) : List AdapterTask :=
  let (idleFolders, pollFolders) := params.folders.partition (·.idleEnabled)
  let pollFolders := pollFolders ++ idleFolders.tail
  idleFolders.head?.toList.map (fun folder => ⟨accountId, .idle, [folder], set, false⟩) ++
    if pollFolders.isEmpty then [] else [⟨accountId, .poll, pollFolders, set, false⟩]

/-- `calls` is a history, newest first: the entries that were put into the map and taken out of it. -/
structure ImapAdapter where
  tracked : List (AccountId × AccountHandle)
  tasks : List AdapterTask
  cancelled : List Nat
  nextSet : Nat
  calls : List (AccountId × Option ImapConnectionParams)

inductive AdapterOp
  | newSet
  | spawn (task : AdapterTask)
  | insert (accountId : AccountId) (handle : AccountHandle)
  | remove (accountId : AccountId)
  | cancel (handle : AccountHandle)
  | drain (handle : AccountHandle)

abbrev AdapterOp.Reply : AdapterOp → Type
  | newSet => Nat
  | remove _ => Option AccountHandle
  | spawn _ | insert _ _ | cancel _ | drain _ => Unit

namespace ImapAdapter

def new : ImapAdapter := ⟨[], [], [], 0, []⟩

def handle? (s : ImapAdapter) (accountId : AccountId) : Option AccountHandle :=
  (s.tracked.find? (·.1 = accountId)).map Prod.snd

def take (s : ImapAdapter) (accountId : AccountId) : ImapAdapter :=
  { s with
    tracked := s.tracked.filter (·.1 ≠ accountId)
    calls := (accountId, none) :: s.calls }

/-- The handle that is overwritten goes, and its join set with it. -/
def put (s : ImapAdapter) (accountId : AccountId) (handle : AccountHandle) : ImapAdapter :=
  { s with
    tracked := (accountId, handle) :: s.tracked.filter (·.1 ≠ accountId)
    tasks := s.tasks.map fun t =>
      if (s.handle? accountId).any (·.set = t.set) then { t with aborted := true } else t
    calls := (accountId, some handle.params) :: s.calls }

def running (s : ImapAdapter) (accountId : AccountId) : List AdapterTask :=
  s.tasks.filter fun t => t.accountId = accountId && !t.aborted

end ImapAdapter

abbrev adapterMachine : Machine where
  Op := AdapterOp
  Reply := AdapterOp.Reply
  State := ImapAdapter
  Choice _ := Unit
  exec
    | .newSet, _, s => (s.nextSet, { s with nextSet := s.nextSet + 1 })
    | .spawn task, _, s => ((), { s with tasks := s.tasks ++ [task] })
    | .insert accountId handle, _, s => ((), s.put accountId handle)
    | .remove accountId, _, s => (s.handle? accountId, s.take accountId)
    | .cancel handle, _, s => ((), { s with cancelled := handle.set :: s.cancelled })
    | .drain _, _, s => ((), s)

abbrev AdapterAction (α : Type) := Action adapterMachine.toSignature Error α

namespace ImapAdapter

def perform (o : AdapterOp) : AdapterAction o.Reply := .mk (.call o fun r => .ret (.ok r))

def stopAccount (accountId : AccountId) : AdapterAction Unit := do
  match ← perform (.remove accountId) with
  | none => return ()
  | some handle => do
    let _ ← perform (.cancel handle)
    perform (.drain handle)

def spawnTasks : List AdapterTask → AdapterAction Unit
  | [] => pure ()
  | task :: tasks => do
    perform (.spawn task)
    spawnTasks tasks

def startAccount (accountId : AccountId) (params : ImapConnectionParams) : AdapterAction Unit := do
  let _ ← (attempt (stopAccount accountId) : AdapterAction (Except Error Unit))
  let set ← perform .newSet
  spawnTasks (params.tasks accountId set)
  perform (.insert accountId ⟨set, params⟩)

/-- Draining waits for the last task of the join set. -/
def allowed : adapterMachine.Allowed
  | s, .drain handle, _ => ∀ t ∈ s.tasks, t.set ≠ handle.set
  | _, _, _ => True

/-- A task ends once its token is cancelled or it is aborted. -/
inductive TaskEnds : ImapAdapter → ImapAdapter → Prop
  | mk {s : ImapAdapter} (t : AdapterTask) (runs : t ∈ s.tasks) (told : t.aborted = true ∨ t.set ∈ s.cancelled) :
      TaskEnds s { s with tasks := s.tasks.erase t }

/-- Thread `i` makes calls for the account `account i`, one after the other. -/
def system {ι : Type} (account : ι → AccountId) : System adapterMachine ι (Except Error Unit) where
  allowed := allowed
  root _ i p := p = (stopAccount (account i)).run ∨ ∃ params, p = (startAccount (account i) params).run
  env := TaskEnds
  crash _ _ := False

end ImapAdapter

namespace ImapConnectionParams
variable {params : ImapConnectionParams} {accountId : AccountId} {set : Nat}

theorem mem_tasks {t : AdapterTask} (h : t ∈ params.tasks accountId set) :
    t.accountId = accountId ∧ t.set = set ∧ t.aborted = false := by
  unfold tasks at h
  rcases List.mem_append.mp h with idle | poll
  · obtain ⟨folder, -, rfl⟩ := List.mem_map.mp idle
    exact ⟨rfl, rfl, rfl⟩
  · split at poll
    · cases poll
    · obtain rfl := List.mem_singleton.mp poll
      exact ⟨rfl, rfl, rfl⟩

/-- Each folder is in one of the tasks. -/
theorem tasks_folders (params : ImapConnectionParams) (accountId : AccountId) (set : Nat) :
    ((params.tasks accountId set).flatMap AdapterTask.folders).Perm params.folders := by
  have spread : (params.folders.filter (not ∘ (·.idleEnabled)) ++ params.folders.filter (·.idleEnabled)).Perm
      params.folders := List.perm_append_comm.trans (List.filter_append_perm _ _)
  refine List.Perm.trans ?_ spread
  unfold tasks
  rw [List.partition_eq_filter_filter]
  generalize params.folders.filter (·.idleEnabled) = idleFolders
  generalize params.folders.filter (not ∘ (·.idleEnabled)) = pollFolders
  have polled (folders : List FolderConfig) : (if folders.isEmpty = true then []
      else [(⟨accountId, .poll, folders, set, false⟩ : AdapterTask)]).flatMap AdapterTask.folders = folders := by
    cases folders <;> simp
  simp only [List.flatMap_append, polled]
  cases idleFolders with
  | nil => simp
  | cons idleFolder surplus =>
    change (idleFolder :: (pollFolders ++ surplus)).Perm _
    exact List.perm_middle.symm

/-- At most one task of a kind. -/
theorem tasks_kinds (params : ImapConnectionParams) (accountId : AccountId) (set : Nat) :
    ((params.tasks accountId set).map AdapterTask.kind).Nodup := by
  unfold tasks
  rw [List.partition_eq_filter_filter]
  generalize params.folders.filter (·.idleEnabled) = idleFolders
  generalize params.folders.filter (not ∘ (·.idleEnabled)) = pollFolders
  simp only
  cases idleFolders <;> split <;> simp

end ImapConnectionParams

namespace ImapAdapter
variable {s : ImapAdapter} {accountId : AccountId} {handle : AccountHandle} {e : AccountId × AccountHandle}

theorem mem_of_handle? (h : s.handle? accountId = some handle) : (accountId, handle) ∈ s.tracked := by
  obtain ⟨entry, found, rfl⟩ := Option.map_eq_some_iff.mp h
  have same := List.find?_some found
  rw [decide_eq_true_eq] at same
  rw [← same]
  exact List.mem_of_find?_eq_some found

theorem ne_of_handle?_none (h : s.handle? accountId = none) (mem : e ∈ s.tracked) : e.1 ≠ accountId := by
  intro same
  have := List.find?_eq_none.mp (Option.map_eq_none_iff.mp h) e mem
  simp [same] at this

theorem mem_take : e ∈ (s.take accountId).tracked ↔ e ∈ s.tracked ∧ e.1 ≠ accountId := by simp [take]

theorem mem_put : e ∈ (s.put accountId handle).tracked ↔
    e = (accountId, handle) ∨ e ∈ s.tracked ∧ e.1 ≠ accountId := by simp [put]

private theorem find?_others (tracked : List (AccountId × AccountHandle)) (accountId a : AccountId) :
    (tracked.filter (·.1 ≠ accountId)).find? (·.1 = a) = if a = accountId then none else tracked.find? (·.1 = a) := by
  rw [List.find?_filter]
  by_cases same : a = accountId
  · rw [if_pos same, same]
    simp
  · rw [if_neg same]
    refine congrArg (tracked.find? ·) (funext fun e => ?_)
    by_cases own : e.1 = a
    · simp [own, same]
    · simp [own]

theorem handle?_take (s : ImapAdapter) (accountId a : AccountId) :
    (s.take accountId).handle? a = if a = accountId then none else s.handle? a := by
  rw [handle?, take, find?_others]
  split <;> rfl

theorem handle?_put (s : ImapAdapter) (accountId a : AccountId) (handle : AccountHandle) :
    (s.put accountId handle).handle? a = if a = accountId then some handle else s.handle? a := by
  rw [handle?, put, List.find?_cons, find?_others]
  by_cases same : a = accountId
  · simp [same]
  · simp [same, Ne.symm same, handle?]

def port (s : ImapAdapter) : List (AccountId × ImapConnectionParams) := s.tracked.map fun e => (e.1, e.2.params)

private theorem filter_port (s : ImapAdapter) (accountId : AccountId) :
    s.port.filter (·.1 ≠ accountId) = (s.tracked.filter (·.1 ≠ accountId)).map fun e => (e.1, e.2.params) := by
  rw [port, List.filter_map]
  rfl

section Calls
variable {α ι : Type} [DecidableEq ι] {w : SyncHost ι} {r : Except Error Unit} {s' : ImapAdapter}

theorem runs_perform {o : AdapterOp} {f : o.Reply → AdapterAction α} {r : Except Error α}
    (run : Runs allowed (perform o >>= f).run s r s') :
    Runs allowed (f (adapterMachine.exec o () s).1).run (adapterMachine.exec o () s).2 r s' := by
  obtain ⟨_, -, rest⟩ := runs_call.mp run
  exact rest

private theorem runs_stopAccount (run : Runs allowed (stopAccount accountId).run s r s') :
    r = .ok () ∧ s'.port = s.port.filter (·.1 ≠ accountId) := by
  rw [filter_port]
  have rest := runs_perform run
  cases found : s.handle? accountId with
  | none =>
    rw [show (adapterMachine.exec (.remove accountId) () s).1 = none from found] at rest
    obtain ⟨rfl, rfl⟩ := runs_ret.mp rest
    exact ⟨rfl, rfl⟩
  | some handle =>
    rw [show (adapterMachine.exec (.remove accountId) () s).1 = some handle from found] at rest
    obtain ⟨_, -, returned⟩ := runs_call.mp (runs_perform rest)
    obtain ⟨rfl, rfl⟩ := runs_ret.mp returned
    exact ⟨rfl, rfl⟩

private theorem runs_spawnTasks {tasks : List AdapterTask} (run : Runs allowed (spawnTasks tasks).run s r s') :
    r = .ok () ∧ s'.tracked = s.tracked := by
  induction tasks generalizing s with
  | nil =>
    obtain ⟨rfl, rfl⟩ := runs_ret.mp run
    exact ⟨rfl, rfl⟩
  | cons task tasks ih =>
    have rest := ih (runs_perform run)
    exact rest

/-- A call that runs alone is one stop at the port. -/
theorem stopAccount_refines (same : w.tracked = s.port) (run : Runs allowed (stopAccount accountId).run s r s') :
    r = ((syncHost ι).exec (.stop accountId) () w).1 ∧ ((syncHost ι).exec (.stop accountId) () w).2.tracked = s'.port := by
  obtain ⟨rfl, left⟩ := runs_stopAccount run
  refine ⟨rfl, ?_⟩
  rw [left, ← same]
  rfl

/-- A call that runs alone is one start at the port. -/
theorem startAccount_refines (same : w.tracked = s.port) {params : ImapConnectionParams}
    (run : Runs allowed (startAccount accountId params).run s r s') :
    r = ((syncHost ι).exec (.start accountId params) () w).1 ∧
      ((syncHost ι).exec (.start accountId params) () w).2.tracked = s'.port := by
  obtain ⟨reply, t, first, rest⟩ := runs_bind.mp run
  obtain ⟨stopped, u, stop, returned⟩ := runs_bind.mp first
  obtain ⟨rfl, rfl⟩ := runs_ret.mp returned
  obtain ⟨-, left⟩ := runs_stopAccount stop
  obtain ⟨spawned, v, spawn, put⟩ := runs_bind.mp (runs_perform rest)
  obtain ⟨rfl, kept⟩ := runs_spawnTasks spawn
  obtain ⟨_, -, last⟩ := runs_call.mp put
  obtain ⟨rfl, rfl⟩ := runs_ret.mp last
  refine ⟨rfl, ?_⟩
  have others : w.tracked.filter (·.1 ≠ accountId) = v.port.filter (·.1 ≠ accountId) := by
    have unchanged : v.port = u.port := by
      rw [port, port, kept]
    rw [unchanged, left, same, List.filter_filter]
    simp
  change (accountId, params) :: w.tracked.filter _ = _
  rw [others, filter_port]
  rfl

end Calls

end ImapAdapter
end MailKeep
