import MailKeep.Imap.Adapter

/-! Which tasks run for an account: the calls on the adapter own join sets, and so does the map. -/
namespace MailKeep
open Program
namespace ImapAdapter

/-- What a call holds: a handle it has taken out of the map, or a join set that is being filled. -/
inductive Place
  | free
  | holding (handle : AccountHandle)
  | building (set : Nat) (spawned : List AdapterTask)

namespace Place

/-- The join set of the call, and the tasks it is known to have. -/
def claim : Place → Option (Nat × Option (List AdapterTask))
  | free => none
  | holding handle => some (handle.set, none)
  | building set spawned => some (set, some spawned)

def spawn (task : AdapterTask) : Place → Place
  | building set spawned => building set (spawned ++ [task])
  | place => place

end Place

variable {ι : Type}

/-- A call works on its own join set only, and it puts the set into the map with all its tasks. -/
def custody (account : ι → AccountId) : Discipline adapterMachine ι Place where
  start := .free
  ready i place
    | .newSet => place = .free
    | .spawn t => ∃ spawned, place = .building t.set spawned ∧ t.accountId = account i ∧ t.aborted = false
    | .insert accountId handle =>
      accountId = account i ∧ place = .building handle.set (handle.params.tasks accountId handle.set)
    | .remove accountId => accountId = account i ∧ place = .free
    | .cancel handle | .drain handle => place = .holding handle
  after place
    | .newSet, set => .building set []
    | .spawn t, _ => place.spawn t
    | .insert _ _, _ => .free
    | .remove _, none => .free
    | .remove _, some handle => .holding handle
    | .cancel _, _ => place
    | .drain _, _ => .free
  done place := place = .free

variable {account : ι → AccountId}

private theorem leads_stopAccount (i : ι) :
    (custody account).Leads i (fun _ place => place = .free) .free (stopAccount (account i)).run := by
  refine ⟨⟨rfl, rfl⟩, fun r => ?_⟩
  cases r with
  | none => exact rfl
  | some handle => exact ⟨rfl, fun _ => ⟨rfl, fun _ => rfl⟩⟩

private theorem leads_spawnTasks (i : ι) (set : Nat) (spawned : List AdapterTask) {tasks : List AdapterTask}
    (own : ∀ t ∈ tasks, t.accountId = account i ∧ t.set = set ∧ t.aborted = false) :
    (custody account).Leads i (fun r place => r = .ok () ∧ place = .building set (spawned ++ tasks))
      (.building set spawned) (spawnTasks tasks).run := by
  induction tasks generalizing spawned with
  | nil => exact ⟨rfl, by rw [List.append_nil]⟩
  | cons t tasks ih =>
    obtain ⟨acc, rfl, runs⟩ := own t List.mem_cons_self
    refine ⟨⟨spawned, rfl, acc, runs⟩, fun _ => ?_⟩
    have rest := ih (spawned ++ [t]) fun t' later => own t' (List.mem_cons_of_mem t later)
    rw [List.append_assoc] at rest
    exact rest

private theorem leads_startAccount (i : ι) (params : ImapConnectionParams) :
    (custody account).Leads i (fun _ place => place = .free) .free (startAccount (account i) params).run := by
  refine .seq (.attempt ((leads_stopAccount i).weaken fun r place free => ?_))
  rw [free]
  refine ⟨rfl, fun set => ?_⟩
  refine .seq ((leads_spawnTasks i set [] fun t => ImapConnectionParams.mem_tasks).weaken ?_)
  rintro _ _ ⟨rfl, rfl⟩
  exact ⟨⟨rfl, rfl⟩, fun _ => rfl⟩

/-- An entry of the map or a call holds the join set, for the account and with these tasks if they are known. -/
def Holds (account : ι → AccountId) (s : ImapAdapter) (places : ι → Place) :
    (AccountId × AccountHandle) ⊕ ι → Nat → AccountId → Option (List AdapterTask) → Prop
  | .inl e, set, a, tasks =>
    e ∈ s.tracked ∧ set = e.2.set ∧ a = e.1 ∧ tasks = some (e.2.params.tasks e.1 e.2.set)
  | .inr i, set, a, tasks => (places i).claim = some (set, tasks) ∧ a = account i

/-- The map says what the last call for an account did. -/
def Recorded (s : ImapAdapter) : Prop :=
  ∀ a, (s.calls.find? (·.1 = a)).bind Prod.snd = (s.handle? a).map AccountHandle.params

theorem Recorded.take {s : ImapAdapter} {accountId : AccountId} (h : s.Recorded) : (s.take accountId).Recorded := by
  intro a
  rw [handle?_take]
  by_cases same : a = accountId
  · subst same
    simp [ImapAdapter.take]
  · rw [if_neg same, ← h a]
    simp [ImapAdapter.take, Ne.symm same]

theorem Recorded.put {s : ImapAdapter} {accountId : AccountId} {handle : AccountHandle} (h : s.Recorded) :
    (s.put accountId handle).Recorded := by
  intro a
  rw [handle?_put]
  by_cases same : a = accountId
  · subst same
    simp [ImapAdapter.put]
  · rw [if_neg same, ← h a]
    simp [ImapAdapter.put, Ne.symm same]

/-- A join set has one holder, what it should run it runs, and a task of no holder is aborted. -/
structure Custody (account : ι → AccountId) (s : ImapAdapter) (places : ι → Place) : Prop where
  keys : (s.tracked.map Prod.fst).Nodup
  unique : ∀ {o o' set a a' x x'}, Holds account s places o set a x → Holds account s places o' set a' x' → o = o'
  held : ∀ {o set a x}, Holds account s places o set a x → set < s.nextSet
  spawned : ∀ t ∈ s.tasks, t.set < s.nextSet
  cancelled : ∀ set ∈ s.cancelled, set < s.nextSet
  exact : ∀ {o set a tasks}, Holds account s places o set a (some tasks) →
    set ∉ s.cancelled ∧ s.tasks.filter (·.set = set) = tasks ∧ ∀ t ∈ tasks, t.aborted = false
  owned : ∀ t ∈ s.tasks, t.aborted = true ∨ ∃ o x, Holds account s places o t.set t.accountId x

variable {s : ImapAdapter} {places : ι → Place}

theorem custody_new : Custody account .new fun _ => .free where
  keys := List.nodup_nil
  unique := by
    rintro (e | i) o' set a a' x x' ⟨held, -⟩ -
    · cases held
    · cases held
  held := by
    rintro (e | i) set a x ⟨held, -⟩
    · cases held
    · cases held
  spawned _ runs := by cases runs
  cancelled _ told := by cases told
  exact := by
    rintro (e | i) set a tasks ⟨held, -⟩
    · cases held
    · cases held
  owned _ runs := by cases runs

namespace Custody
variable {i : ι} {place : Place}

/-- A holder other than the call that holds the set is none of it. -/
theorem other (h : Custody account s places) {set set' : Nat} {a a' : AccountId} {x x' : Option (List AdapterTask)}
    {o o' : (AccountId × AccountHandle) ⊕ ι} (mine : Holds account s places o set a x) (apart : o' ≠ o)
    (held : Holds account s places o' set' a' x') : set' ≠ set := by
  rintro rfl
  exact apart (h.unique held mine)

theorem cancel (h : Custody account s places) {handle : AccountHandle} (holding : places i = .holding handle) :
    Custody account { s with cancelled := handle.set :: s.cancelled } places := by
  have mine : Holds account s places (.inr i) handle.set (account i) none := ⟨by rw [holding]; rfl, rfl⟩
  refine ⟨h.keys, h.unique, h.held, h.spawned, ?_, ?_, h.owned⟩
  · intro set told
    rcases List.mem_cons.mp told with rfl | before
    · exact h.held mine
    · exact h.cancelled set before
  · intro o set a tasks held
    obtain ⟨live, exact⟩ := h.exact held
    refine ⟨fun told => ?_, exact⟩
    rcases List.mem_cons.mp told with rfl | before
    · obtain rfl := h.unique held mine
      cases held.1.symm.trans mine.1
    · exact live before

/-- A task that ends is one that nobody counts on any more. -/
theorem ends (h : Custody account s places) {t : AdapterTask}
    (told : t.aborted = true ∨ t.set ∈ s.cancelled) : Custody account { s with tasks := s.tasks.erase t } places := by
  refine ⟨h.keys, h.unique, h.held, fun t' there => h.spawned t' (List.mem_of_mem_erase there), h.cancelled, ?_,
    fun t' there => h.owned t' (List.mem_of_mem_erase there)⟩
  intro o set a tasks held
  obtain ⟨live, filtered, all⟩ := h.exact held
  refine ⟨live, ?_, all⟩
  have out : t ∉ tasks := by
    intro listed
    rcases told with aborted | cancelled
    · rw [all t listed] at aborted
      cases aborted
    · rw [← filtered] at listed
      exact live (of_decide_eq_true (List.mem_filter.mp listed).2 ▸ cancelled)
  rw [← List.erase_filter, filtered, List.erase_of_not_mem out]

/-- Dropping the handle that is overwritten aborts its own tasks only. -/
private theorem mark_eq (h : Custody account s places) {accountId a : AccountId} {t : AdapterTask}
    {o : (AccountId × AccountHandle) ⊕ ι} {x : Option (List AdapterTask)} (held : Holds account s places o t.set a x)
    (other : ∀ old, o ≠ .inl (accountId, old)) :
    (if (s.handle? accountId).any (·.set = t.set) then { t with aborted := true } else t) = t := by
  cases found : s.handle? accountId with
  | none => rfl
  | some old =>
    refine if_neg fun same => ?_
    have dropped : Holds account s places (.inl (accountId, old)) old.set accountId _ :=
      ⟨mem_of_handle? found, rfl, rfl, rfl⟩
    rw [Option.any_some, decide_eq_true_eq] at same
    rw [same] at dropped
    exact other old (h.unique held dropped)

/-- A set that the overwritten handle does not have keeps its tasks as they are. -/
private theorem filter_put (h : Custody account s places) {accountId a : AccountId} {handle : AccountHandle}
    {o : (AccountId × AccountHandle) ⊕ ι} {set : Nat} {x : Option (List AdapterTask)}
    (held : Holds account s places o set a x) (other : ∀ old, o ≠ .inl (accountId, old)) :
    (s.put accountId handle).tasks.filter (·.set = set) = s.tasks.filter (·.set = set) := by
  change (s.tasks.map _).filter _ = _
  rw [List.filter_map]
  have same : ((fun t : AdapterTask => decide (t.set = set)) ∘ fun t =>
      if (s.handle? accountId).any (·.set = t.set) then { t with aborted := true } else t) =
      fun t => decide (t.set = set) := by
    funext t
    rw [Function.comp_apply]
    split <;> rfl
  rw [same]
  refine (List.map_congr_left fun t listed => ?_).trans (List.map_id _)
  obtain rfl := of_decide_eq_true (List.mem_filter.mp listed).2
  exact h.mark_eq held other

/-- What is held after the removal was held before, but for the handle itself. -/
theorem holds_take {accountId a : AccountId} {o : (AccountId × AccountHandle) ⊕ ι} {set : Nat}
    {x : Option (List AdapterTask)} (held : Holds account (s.take accountId) places o set a x) :
    Holds account s places o set a x ∧ ∀ handle, o ≠ .inl (accountId, handle) := by
  cases o with
  | inl e =>
    obtain ⟨there, other⟩ := mem_take.mp held.1
    refine ⟨⟨there, held.2⟩, ?_⟩
    rintro handle ⟨rfl⟩
    exact other rfl
  | inr j => exact ⟨held, fun _ same => by cases same⟩

private theorem not_holds_of_free (free : places i = .free) {set : Nat} {a : AccountId}
    {x : Option (List AdapterTask)} :
    ¬ Holds account s places (.inr i) set a x := by
  rintro ⟨claim, -⟩
  rw [free] at claim
  cases claim

variable [DecidableEq ι]

/-- Who holds what after a call has moved on, while the map stays. -/
theorem holds_update {o : (AccountId × AccountHandle) ⊕ ι} {set : Nat} {a : AccountId} {x : Option (List AdapterTask)} :
    Holds account s (Function.update places i place) o set a x ↔
      o = .inr i ∧ place.claim = some (set, x) ∧ a = account i ∨ o ≠ .inr i ∧ Holds account s places o set a x := by
  cases o with
  | inl e => simp [Holds]
  | inr j =>
    by_cases same : j = i
    · subst same
      simp [Holds]
    · simp [Holds, same]

theorem holds_free {o : (AccountId × AccountHandle) ⊕ ι} {set : Nat} {a : AccountId} {x : Option (List AdapterTask)} :
    Holds account s (Function.update places i .free) o set a x ↔ o ≠ .inr i ∧ Holds account s places o set a x := by
  rw [holds_update]
  constructor
  · rintro (⟨-, none, -⟩ | held)
    · cases none
    · exact held
  · exact .inr

theorem newSet (h : Custody account s places) (free : places i = .free) :
    Custody account { s with nextSet := s.nextSet + 1 } (Function.update places i (.building s.nextSet [])) where
  keys := h.keys
  unique {o o' set a a' x x'} held held' := by
    rcases holds_update.mp held with ⟨rfl, claim, rfl⟩ | ⟨-, before⟩ <;>
      rcases holds_update.mp held' with ⟨rfl, claim', rfl⟩ | ⟨-, before'⟩
    · rfl
    · cases claim
      exact absurd (h.held before') (lt_irrefl _)
    · cases claim'
      exact absurd (h.held before) (lt_irrefl _)
    · exact h.unique before before'
  held {o set a x} held := by
    rcases holds_update.mp held with ⟨rfl, claim, rfl⟩ | ⟨-, before⟩
    · cases claim
      exact Nat.lt_succ_self _
    · exact Nat.lt_succ_of_lt (h.held before)
  spawned t runs := Nat.lt_succ_of_lt (h.spawned t runs)
  cancelled set told := Nat.lt_succ_of_lt (h.cancelled set told)
  exact {o set a tasks} held := by
    rcases holds_update.mp held with ⟨rfl, claim, rfl⟩ | ⟨-, before⟩
    · cases claim
      refine ⟨fun told => absurd (h.cancelled _ told) (lt_irrefl _), ?_, fun t mem => by cases mem⟩
      refine List.filter_eq_nil_iff.mpr fun t runs same => ?_
      rw [decide_eq_true_eq] at same
      exact absurd (h.spawned t runs) (same ▸ lt_irrefl _)
    · exact h.exact before
  owned t runs := by
    rcases h.owned t runs with aborted | ⟨o, x, held⟩
    · exact .inl aborted
    · refine .inr ⟨o, x, holds_update.mpr (.inr ⟨?_, held⟩)⟩
      rintro rfl
      exact not_holds_of_free free held

theorem spawn (h : Custody account s places) {t : AdapterTask} {spawned : List AdapterTask}
    (building : places i = .building t.set spawned) (own : t.accountId = account i) (runs : t.aborted = false) :
    Custody account { s with tasks := s.tasks ++ [t] } (Function.update places i (.building t.set (spawned ++ [t]))) := by
  have mine : Holds account s places (.inr i) t.set (account i) (some spawned) := ⟨by rw [building]; rfl, rfl⟩
  refine ⟨h.keys, ?_, ?_, ?_, h.cancelled, ?_, ?_⟩
  · intro o o' set a a' x x' held held'
    rcases holds_update.mp held with ⟨rfl, claim, rfl⟩ | ⟨-, before⟩ <;>
      rcases holds_update.mp held' with ⟨rfl, claim', rfl⟩ | ⟨-, before'⟩
    · rfl
    · cases claim
      exact h.unique mine before'
    · cases claim'
      exact h.unique before mine
    · exact h.unique before before'
  · intro o set a x held
    rcases holds_update.mp held with ⟨rfl, claim, rfl⟩ | ⟨-, before⟩
    · cases claim
      exact h.held mine
    · exact h.held before
  · intro t' there
    rcases List.mem_append.mp there with before | last
    · exact h.spawned t' before
    · obtain rfl := List.mem_singleton.mp last
      exact h.held mine
  · intro o set a tasks held
    rcases holds_update.mp held with ⟨rfl, claim, rfl⟩ | ⟨apart, before⟩
    · cases claim
      obtain ⟨live, filtered, all⟩ := h.exact mine
      refine ⟨live, by simp [filtered], fun t' there => ?_⟩
      rcases List.mem_append.mp there with before | last
      · exact all t' before
      · obtain rfl := List.mem_singleton.mp last
        exact runs
    · obtain ⟨live, filtered, all⟩ := h.exact before
      have different : t.set ≠ set := (h.other mine apart before).symm
      exact ⟨live, by simp [filtered, different], all⟩
  · intro t' there
    rcases List.mem_append.mp there with before | last
    · rcases h.owned t' before with aborted | ⟨o, x, held⟩
      · exact .inl aborted
      · refine .inr ?_
        by_cases same : o = .inr i
        · subst same
          rw [Holds, building] at held
          obtain ⟨claim, acc⟩ := held
          obtain ⟨same, rfl⟩ := Prod.mk.inj (Option.some.inj claim)
          exact ⟨.inr i, _, holds_update.mpr
            (.inl ⟨rfl, congrArg (fun n => some (n, some (spawned ++ [t]))) same, acc⟩)⟩
        · exact ⟨o, x, holds_update.mpr (.inr ⟨same, held⟩)⟩
    · obtain rfl := List.mem_singleton.mp last
      exact .inr ⟨.inr i, _, holds_update.mpr (.inl ⟨rfl, rfl, own⟩)⟩

theorem drain (h : Custody account s places) {handle : AccountHandle} (holding : places i = .holding handle)
    (drained : ∀ t ∈ s.tasks, t.set ≠ handle.set) : Custody account s (Function.update places i .free) := by
  refine ⟨h.keys, ?_, ?_, h.spawned, h.cancelled, ?_, ?_⟩
  · exact fun held held' => h.unique (holds_free.mp held).2 (holds_free.mp held').2
  · exact fun held => h.held (holds_free.mp held).2
  · exact fun held => h.exact (holds_free.mp held).2
  · intro t runs
    rcases h.owned t runs with aborted | ⟨o, x, held⟩
    · exact .inl aborted
    · refine .inr ⟨o, x, holds_free.mpr ⟨?_, held⟩⟩
      rintro rfl
      rw [Holds, holding] at held
      obtain ⟨same, -⟩ := Prod.mk.inj (Option.some.inj held.1)
      exact drained t runs same.symm

private theorem remove_none (h : Custody account s places) (free : places i = .free)
    (found : s.handle? (account i) = none) :
    Custody account (s.take (account i)) (Function.update places i .free) where
  keys := h.keys.sublist (List.filter_sublist.map _)
  unique held held' := h.unique (holds_take (holds_free.mp held).2).1 (holds_take (holds_free.mp held').2).1
  held held := h.held (holds_take (holds_free.mp held).2).1
  spawned := h.spawned
  cancelled := h.cancelled
  exact held := h.exact (holds_take (holds_free.mp held).2).1
  owned t runs := by
    rcases h.owned t runs with aborted | ⟨o, x, held⟩
    · exact .inl aborted
    · refine .inr ⟨o, x, holds_free.mpr ⟨?_, ?_⟩⟩
      · rintro rfl
        exact not_holds_of_free free held
      · cases o with
        | inl e => exact ⟨mem_take.mpr ⟨held.1, ne_of_handle?_none found held.1⟩, held.2⟩
        | inr j => exact held

/-- The handle goes from the map to the call. -/
private theorem remove_some (h : Custody account s places) (free : places i = .free) {handle : AccountHandle}
    (found : s.handle? (account i) = some handle) :
    Custody account (s.take (account i)) (Function.update places i (.holding handle)) := by
  have mine : Holds account s places (.inl (account i, handle)) handle.set (account i) _ :=
    ⟨mem_of_handle? found, rfl, rfl, rfl⟩
  refine ⟨h.keys.sublist (List.filter_sublist.map _), ?_, ?_, h.spawned, h.cancelled, ?_, ?_⟩
  · intro o o' set a a' x x' held held'
    rcases holds_update.mp held with ⟨rfl, claim, rfl⟩ | ⟨-, old⟩ <;>
      rcases holds_update.mp held' with ⟨rfl, claim', rfl⟩ | ⟨-, old'⟩
    · rfl
    · cases claim
      exact absurd (h.unique (holds_take old').1 mine) ((holds_take old').2 handle)
    · cases claim'
      exact absurd (h.unique (holds_take old).1 mine) ((holds_take old).2 handle)
    · exact h.unique (holds_take old).1 (holds_take old').1
  · intro o set a x held
    rcases holds_update.mp held with ⟨rfl, claim, rfl⟩ | ⟨-, old⟩
    · cases claim
      exact h.held mine
    · exact h.held (holds_take old).1
  · intro o set a tasks held
    rcases holds_update.mp held with ⟨rfl, claim, rfl⟩ | ⟨-, old⟩
    · cases claim
    · exact h.exact (holds_take old).1
  · intro t runs
    rcases h.owned t runs with aborted | ⟨o, x, held⟩
    · exact .inl aborted
    · refine .inr ?_
      cases o with
      | inl e =>
        by_cases same : e.1 = account i
        · have whole : e = (account i, handle) :=
            List.inj_on_of_nodup_map h.keys held.1 (mem_of_handle? found) same
          rw [whole] at held
          exact ⟨.inr i, none, holds_update.mpr (.inl ⟨rfl, congrArg (fun n => some (n, none)) held.2.1.symm, held.2.2.1⟩)⟩
        · exact ⟨.inl e, x, holds_update.mpr (.inr ⟨(by simp), mem_take.mpr ⟨held.1, same⟩, held.2⟩)⟩
      | inr j =>
        refine ⟨.inr j, x, holds_update.mpr (.inr ⟨?_, held⟩)⟩
        rintro ⟨rfl⟩
        exact not_holds_of_free free held

/-- Once the handle is in the map its entry has the call's set, and whatever else is held was held before. -/
theorem holds_put {handle : AccountHandle}
    (building : places i = .building handle.set (handle.params.tasks (account i) handle.set))
    {o : (AccountId × AccountHandle) ⊕ ι} {set : Nat} {a : AccountId} {x : Option (List AdapterTask)}
    (held : Holds account (s.put (account i) handle) (Function.update places i .free) o set a x) :
    o = .inl (account i, handle) ∧ Holds account s places (.inr i) set a x ∨
      o ≠ .inr i ∧ Holds account s places o set a x ∧ ∀ old, o ≠ .inl (account i, old) := by
  obtain ⟨apart, held⟩ := holds_free.mp held
  cases o with
  | inl e =>
    obtain ⟨there, rest⟩ := held
    rcases mem_put.mp there with rfl | ⟨there, other⟩
    · obtain ⟨rfl, rfl, rfl⟩ := rest
      exact .inl ⟨rfl, congrArg Place.claim building, rfl⟩
    · refine .inr ⟨apart, ⟨there, rest⟩, ?_⟩
      rintro old ⟨rfl⟩
      exact other rfl
  | inr j => exact .inr ⟨apart, held, fun _ same => by cases same⟩

/-- A task of another set than the overwritten handle's has its holder still. -/
private theorem owned_put (h : Custody account s places) {handle : AccountHandle}
    (building : places i = .building handle.set (handle.params.tasks (account i) handle.set)) {t : AdapterTask}
    (runs : t ∈ s.tasks) (kept : (s.handle? (account i)).any (·.set = t.set) ≠ true) :
    t.aborted = true ∨ ∃ o x,
      Holds account (s.put (account i) handle) (Function.update places i .free) o t.set t.accountId x := by
  rcases h.owned t runs with aborted | ⟨o, x, held⟩
  · exact .inl aborted
  · refine .inr ?_
    cases o with
    | inl e =>
      have other : e.1 ≠ account i := by
        intro same
        cases found : s.handle? (account i) with
        | none => exact ne_of_handle?_none found held.1 same
        | some old =>
          obtain rfl := List.inj_on_of_nodup_map h.keys held.1 (mem_of_handle? found) same
          exact kept (by simp [found, held.2.1])
      exact ⟨.inl e, x, holds_free.mpr ⟨(by simp), mem_put.mpr (.inr ⟨held.1, other⟩), held.2⟩⟩
    | inr j =>
      by_cases same : j = i
      · subst same
        obtain ⟨claim, acc⟩ := held
        rw [building] at claim
        obtain ⟨same, rfl⟩ := Prod.mk.inj (Option.some.inj claim)
        exact ⟨.inl (account j, handle), _, holds_free.mpr ⟨(by simp), mem_put.mpr (.inl rfl), same.symm, acc, rfl⟩⟩
      · exact ⟨.inr j, x, holds_free.mpr ⟨fun h => same (Sum.inr.inj h), held⟩⟩

theorem insert (h : Custody account s places) {handle : AccountHandle}
    (building : places i = .building handle.set (handle.params.tasks (account i) handle.set)) :
    Custody account (s.put (account i) handle) (Function.update places i .free) where
  keys := by
    refine List.nodup_cons.mpr ⟨fun twice => ?_, h.keys.sublist (List.filter_sublist.map _)⟩
    obtain ⟨e, kept, same⟩ := List.mem_map.mp twice
    exact absurd same (by simpa using (List.mem_filter.mp kept).2)
  unique {o o' set a a' x x'} held held' := by
    rcases holds_put building held with ⟨rfl, old⟩ | ⟨apart, old, -⟩ <;>
      rcases holds_put building held' with ⟨rfl, old'⟩ | ⟨apart', old', -⟩
    · rfl
    · exact absurd (h.unique old' old) apart'
    · exact absurd (h.unique old old') apart
    · exact h.unique old old'
  held {o set a x} held := by
    rcases holds_put building held with ⟨-, old⟩ | ⟨-, old, -⟩
    · exact h.held old
    · exact h.held old
  spawned t there := by
    obtain ⟨t₀, runs, rfl⟩ := List.mem_map.mp there
    split <;> exact h.spawned t₀ runs
  cancelled := h.cancelled
  exact {o set a tasks} held := by
    obtain ⟨o₀, old, other⟩ : ∃ o₀, Holds account s places o₀ set a (some tasks) ∧
        ∀ old, o₀ ≠ .inl (account i, old) := by
      rcases holds_put building held with ⟨-, old⟩ | ⟨-, old, other⟩
      · exact ⟨_, old, fun _ same => by cases same⟩
      · exact ⟨o, old, other⟩
    obtain ⟨live, filtered, all⟩ := h.exact old
    exact ⟨live, (h.filter_put old other).trans filtered, all⟩
  owned t there := by
    obtain ⟨t₀, runs, rfl⟩ := List.mem_map.mp there
    by_cases dropped : (s.handle? (account i)).any (·.set = t₀.set) = true
    · rw [if_pos dropped]
      exact .inl rfl
    · rw [if_neg dropped]
      exact h.owned_put building runs dropped

end Custody

private theorem keeps_custody [DecidableEq ι] (account : ι → AccountId) :
    (custody account).Keeps (system account) fun s places => Custody account s places ∧ s.Recorded where
  begins s places i p inv root idle := by
    have free : places i = .free := idle.elim id id
    refine ⟨.free, ?_, ?_⟩
    · rcases root with rfl | ⟨params, rfl⟩
      · exact (leads_stopAccount i).fits
      · exact (leads_startAccount i params).fits
    · rw [← free, Function.update_eq_self]
      exact inv
  op s places i o ch inv ready ok := by
    obtain ⟨held, recorded⟩ := inv
    cases o with
    | newSet => exact ⟨held.newSet ready, recorded⟩
    | spawn t =>
      obtain ⟨spawned, building, own, runs⟩ := ready
      have := held.spawn building own runs
      refine ⟨?_, recorded⟩
      change Custody account _ (Function.update places i ((places i).spawn t))
      rw [building]
      exact this
    | insert accountId handle =>
      obtain ⟨rfl, building⟩ := ready
      exact ⟨held.insert building, recorded.put⟩
    | remove accountId =>
      obtain ⟨rfl, free⟩ := ready
      refine ⟨?_, recorded.take⟩
      change Custody account _ (Function.update places i
        ((custody account).after (places i) (.remove (account i)) (s.handle? (account i))))
      cases found : s.handle? (account i) with
      | none => exact held.remove_none free found
      | some handle => exact held.remove_some free found
    | cancel handle =>
      refine ⟨?_, recorded⟩
      change Custody account _ (Function.update places i (places i))
      rw [Function.update_eq_self]
      exact held.cancel ready
    | drain handle => exact ⟨held.drain ready ok, recorded⟩
  env s t places inv ended := by
    cases ended with
    | mk t runs told => exact ⟨inv.1.ends told, inv.2⟩
  crash _ _ _ _ crashed := by cases crashed

/-- While no call works on the account, its tasks are those of its handle. -/
theorem Custody.running_eq (h : Custody account s places) {a : AccountId}
    (free : ∀ i, account i = a → places i = .free) :
    s.running a = (s.handle? a).elim [] fun handle => handle.params.tasks a handle.set := by
  have holder {t : AdapterTask} (runs : t ∈ s.tasks) (own : t.accountId = a) (live : t.aborted = false) :
      ∃ handle, (a, handle) ∈ s.tracked ∧ t.set = handle.set := by
    rcases h.owned t runs with aborted | ⟨o, x, held⟩
    · rw [live] at aborted
      cases aborted
    · cases o with
      | inl e => exact ⟨e.2, (own.symm.trans held.2.2.1) ▸ held.1, held.2.1⟩
      | inr i =>
        rw [Holds, free i (held.2.symm.trans own)] at held
        cases held.1
  cases found : s.handle? a with
  | none =>
    refine List.filter_eq_nil_iff.mpr fun t runs counts => ?_
    rw [Bool.and_eq_true, decide_eq_true_eq, Bool.not_eq_true'] at counts
    obtain ⟨handle, there, -⟩ := holder runs counts.1 counts.2
    exact ne_of_handle?_none found there rfl
  | some handle =>
    have there := mem_of_handle? found
    have mine : Holds account s places (.inl (a, handle)) handle.set a _ := ⟨there, rfl, rfl, rfl⟩
    obtain ⟨-, filtered, -⟩ := h.exact mine
    change s.tasks.filter _ = handle.params.tasks a handle.set
    rw [← filtered]
    refine List.filter_congr fun t runs => ?_
    rw [Bool.eq_iff_iff, Bool.and_eq_true, decide_eq_true_eq, decide_eq_true_eq, Bool.not_eq_true']
    constructor
    · rintro ⟨own, live⟩
      obtain ⟨other, tracked, same⟩ := holder runs own live
      cases List.inj_on_of_nodup_map h.keys there tracked rfl
      exact same
    · intro same
      have listed : t ∈ handle.params.tasks a handle.set :=
        filtered ▸ List.mem_filter.mpr ⟨runs, decide_eq_true same⟩
      obtain ⟨own, -, live⟩ := ImapConnectionParams.mem_tasks listed
      exact ⟨own, live⟩

/-- What holds along every run; a thread that is not in a call holds nothing. -/
theorem Custody.reaches [DecidableEq ι] {c : Config adapterMachine ι (Except Error Unit)}
    (h : Custody account s fun _ => .free) (recorded : s.Recorded) (run : (system account).Reaches (.idle s) c) :
    ∃ places, Custody account c.state places ∧ c.state.Recorded ∧ ∀ i, ¬ c.Busy i → places i = .free := by
  obtain ⟨places, linked, held, recorded⟩ :=
    (keeps_custody account).reaches ((custody account).linked_idle _) ⟨h, recorded⟩ run
  refine ⟨places, held, recorded, fun i rest => ?_⟩
  cases there : c.threads i with
  | none => exact (linked i).2 there
  | some p =>
    cases p with
    | ret r => exact (linked i).1 _ there
    | call o next => exact absurd ⟨o, next, there⟩ rest

/-- However the calls of all threads interleave, once none works on the account each folder of the last start is synced
by one task, with one task of a kind, and nothing runs where the last call was a stop. -/
theorem running_tasks_of_last_call [DecidableEq ι] {account : ι → AccountId}
    {c : Config adapterMachine ι (Except Error Unit)} (run : (system account).Reaches (.idle .new) c) {a : AccountId}
    (rest : ∀ i, account i = a → ¬ c.Busy i) :
    ((c.state.running a).flatMap AdapterTask.folders).Perm
        (((c.state.calls.find? (·.1 = a)).bind Prod.snd).elim [] ImapConnectionParams.folders) ∧
      ((c.state.running a).map AdapterTask.kind).Nodup := by
  obtain ⟨places, held, recorded, free⟩ := Custody.reaches custody_new (fun _ => rfl) run
  rw [held.running_eq fun i works => free i (rest i works), recorded a]
  cases c.state.handle? a with
  | none => exact ⟨.refl _, List.nodup_nil⟩
  | some handle => exact ⟨handle.params.tasks_folders a handle.set, handle.params.tasks_kinds a handle.set⟩

def bothFolders : ImapConnectionParams :=
  ⟨⟨"imap.example.org", 993, .tls⟩, "me", "secret", [⟨7, "INBOX", true, none, 0⟩, ⟨8, "Sent", false, none, 0⟩]⟩

def idleAdapter : Config adapterMachine Bool (Except Error Unit) := .idle ImapAdapter.new

def calledTwice : Config adapterMachine Bool (Except Error Unit) :=
  (idleAdapter.set .new false (startAccount 1 bothFolders).run).set .new true (startAccount 1 bothFolders).run

/-- Both calls find no handle and spawn their tasks before one of them puts its handle in. -/
def startedTwice : Config adapterMachine Bool (Except Error Unit) :=
  [false, true, false, false, false, true, true, true, false, true].foldl (fun c i => c.advance (fun _ => ()) i)
    calledTwice

theorem startedTwice_reached : (system fun _ : Bool => 1).Reaches (.idle .new) startedTwice := by
  have called : (system fun _ : Bool => 1).Reaches idleAdapter calledTwice :=
    .tail (.single (System.step_start (i := false) rfl (Or.inr ⟨bothFolders, rfl⟩)))
      (System.step_start (i := true) rfl (Or.inr ⟨bothFolders, rfl⟩))
  have permitted : (system fun _ : Bool => 1).Permits (fun _ _ => ()) calledTwice
      [false, true, false, false, false, true, true, true, false, true] :=
    ⟨trivial, trivial, trivial, trivial, trivial, trivial, trivial, trivial, trivial, trivial, trivial⟩
  exact called.trans permitted.reaches

/-- The tasks of the handle that was overwritten are not among them. -/
theorem running_tasks_of_last_call_startedTwice :
    ((startedTwice.state.running 1).flatMap AdapterTask.folders).Perm
        (((startedTwice.state.calls.find? (·.1 = 1)).bind Prod.snd).elim [] ImapConnectionParams.folders) ∧
      ((startedTwice.state.running 1).map AdapterTask.kind).Nodup := by
  refine running_tasks_of_last_call startedTwice_reached fun i _ => ?_
  rintro ⟨o, next, busy⟩
  cases i <;> cases busy

end ImapAdapter
end MailKeep
