import MailKeep.Imap.Supervision
import MailKeep.Program.Safe

/-! The shutdown of the adapter: every account that is tracked is stopped, whether or not the database answers. -/
namespace MailKeep
open Program
namespace ImapAdapter

/-- The union of what is enabled, if that could be read, and what is tracked. -/
def stopAllIds (enabled : Except Error (List Account)) (tracked : List AccountId) : List AccountId :=
  ((enabled.toOption.getD []).map Account.id ++ tracked).dedup

def stopAll (ids : List AccountId) : System adapterMachine AccountId (Except Error Unit) where
  allowed := allowed
  root _ id p := id ∈ ids ∧ p = (stopAccount id).run
  env := TaskEnds
  crash _ _ := False

/-- A stop takes entries out of the map and puts none in. -/
def stopping (ids : List AccountId) : Contract adapterMachine :=
  .mutual allowed (fun s => ∀ a, a ∉ ids → s.handle? a = none) fun s t => ∀ a, s.handle? a = none → t.handle? a = none

private theorem stopping_stable (ids : List AccountId) : (stopping ids).Stable :=
  ⟨fun _ _ gone => gone, fun first second a gone => second a (first a gone)⟩

private theorem handle?_take_none {s : ImapAdapter} {accountId a : AccountId} (gone : s.handle? a = none) :
    (s.take accountId).handle? a = none := by
  rw [handle?_take]
  split
  · rfl
  · exact gone

private theorem safe_stopAccount (ids : List AccountId) (id : AccountId) (s : ImapAdapter) :
    Safe (stopping ids) (fun _ t => t.handle? id = none) (stopAccount id).run s := by
  intro s₁ valid _ c _
  have taken : (adapterMachine.exec (.remove id) c s₁).2.handle? id = none := by
    change (s₁.take id).handle? id = none
    rw [handle?_take, if_pos rfl]
  refine ⟨fun a out => handle?_take_none (valid a out), fun a gone => handle?_take_none gone, ?_⟩
  generalize (adapterMachine.exec (.remove id) c s₁).1 = r
  cases r with
  | none => exact fun t _ stays => stays id taken
  | some handle =>
    -- telling the tasks and waiting for them leave the map alone
    refine fun t valid stays _ _ => ⟨valid, fun _ gone => gone, ?_⟩
    refine fun u valid stays' _ _ => ⟨valid, fun _ gone => gone, ?_⟩
    exact fun v _ stays'' => stays'' id (stays' id (stays id taken))

private theorem stopAll_sound (ids : List AccountId) : (stopAll ids).Sound (fun _ => stopping ids)
    (fun id _ t => t.handle? id = none) fun s => ∀ a, a ∉ ids → s.handle? a = none where
  stable _ := stopping_stable ids
  valid_iff _ _ := Iff.rfl
  allows _ _ _ _ ok := ok
  agree _ _ _ _ _ _ _ kept := kept
  root s id p _ root := root.2 ▸ safe_stopAccount ids id s
  env s t valid ended := by
    cases ended with
    | mk t runs told => exact ⟨valid, fun _ _ gone => gone⟩
  crash _ _ _ crashed := by cases crashed

/-- The stops of the shutdown are calls like any other. -/
private theorem stopAll_reaches {ids : List AccountId} {c c' : Config adapterMachine AccountId (Except Error Unit)}
    (run : (stopAll ids).Reaches c c') : (system id).Reaches c c' := by
  refine Relation.ReflTransGen.mono (fun a b step => ?_) c c' run
  cases step with
  | start i p free may => exact .start i p free (.inl may.2)
  | advance i o next at_call ch ok => exact .advance i o next at_call ch ok
  | outside s ended => exact .outside s ended
  | crash s crashed => cases crashed

/-- Nothing is called for an account outside the union. -/
private theorem stopAll_confined (ids : List AccountId) : (stopAll ids).Confined
    (fun id _ => id ∈ ids) fun _ => True where
  root _ id p _ root := by
    obtain ⟨asked, rfl⟩ := root
    refine ⟨asked, fun r => ?_⟩
    cases r with
    | none => trivial
    | some handle => exact ⟨asked, fun _ => ⟨asked, fun _ => trivial⟩⟩
  op _ _ _ _ _ _ _ := trivial
  env _ _ _ _ := trivial
  crash _ _ _ _ := trivial

/-- What the calls of all threads have left is held by the map alone when none is under way. -/
theorem Custody.settled {ι κ : Type} {account : ι → AccountId} {s : ImapAdapter} {places : ι → Place}
    (h : Custody account s places) (free : ∀ i, places i = .free) (account' : κ → AccountId) :
    Custody account' s fun _ => .free := by
  have before {o : (AccountId × AccountHandle) ⊕ κ} {set : Nat} {a : AccountId} {x : Option (List AdapterTask)}
      (held : Holds account' s (fun _ => .free) o set a x) :
      ∃ e, o = .inl e ∧ Holds account s places (.inl e) set a x := by
    cases o with
    | inl e => exact ⟨e, rfl, held⟩
    | inr i => cases held.1
  refine ⟨h.keys, ?_, ?_, h.spawned, h.cancelled, ?_, ?_⟩
  · intro o o' set a a' x x' held held'
    obtain ⟨e, rfl, old⟩ := before held
    obtain ⟨e', rfl, old'⟩ := before held'
    exact congrArg Sum.inl (Sum.inl.inj (h.unique old old'))
  · intro o set a x held
    obtain ⟨e, -, old⟩ := before held
    exact h.held old
  · intro o set a tasks held
    obtain ⟨e, -, old⟩ := before held
    exact h.exact old
  · intro t runs
    rcases h.owned t runs with aborted | ⟨o, x, held⟩
    · exact .inl aborted
    · cases o with
      | inl e => exact .inr ⟨.inl e, x, held⟩
      | inr i =>
        rw [Holds, free i] at held
        cases held.1

/-- A shutdown that finds no call under way stops every task, and it does so without the database. -/
theorem stop_all_leaves_nothing {ι : Type} [DecidableEq ι] {account : ι → AccountId}
    {c : Config adapterMachine ι (Except Error Unit)} {c' : Config adapterMachine AccountId (Except Error Unit)}
    (run : (system account).Reaches (.idle .new) c) (rest : ∀ i, ¬ c.Busy i) (enabled : Except Error (List Account))
    (stops : (stopAll (stopAllIds enabled (c.state.tracked.map Prod.fst))).Reaches (.idle c.state) c')
    (done : ∀ id ∈ stopAllIds enabled (c.state.tracked.map Prod.fst), (c'.result? id).isSome) :
    c'.state.tracked = [] ∧ ∀ a, c'.state.running a = [] := by
  obtain ⟨places, held, recorded, free⟩ := Custody.reaches custody_new (fun _ => rfl) run
  have settled : Custody (id : AccountId → AccountId) c.state fun _ => .free := held.settled (fun i => free i (rest i)) id
  have calls := stopAll_reaches stops
  obtain ⟨places', held', -, free'⟩ := Custody.reaches settled recorded calls
  have outside : ∀ a, a ∉ stopAllIds enabled (c.state.tracked.map Prod.fst) → c.state.handle? a = none := by
    intro a out
    cases found : c.state.handle? a with
    | none => rfl
    | some handle =>
      refine absurd (List.mem_dedup.mpr (List.mem_append_right _ ?_)) out
      exact List.mem_map_of_mem (mem_of_handle? found)
  obtain ⟨valid, safe⟩ := (stopAll_sound _).reaches (AllSafe.idle outside) stops
  have gone (a : AccountId) : c'.state.handle? a = none := by
    by_cases asked : a ∈ stopAllIds enabled (c.state.tracked.map Prod.fst)
    · obtain ⟨r, ended⟩ := Option.isSome_iff_exists.mp (done a asked)
      exact safe a _ (Config.result?_eq_some.mp ended) _ valid fun _ gone => gone
    · exact valid a asked
  constructor
  · refine List.eq_nil_iff_forall_not_mem.mpr fun e there => ?_
    exact ne_of_handle?_none (gone e.1) there rfl
  · intro a
    rw [held'.running_eq fun i _ => free' i ?_, gone a]
    · rfl
    · rintro ⟨o, next, busy⟩
      by_cases asked : i ∈ stopAllIds enabled (c.state.tracked.map Prod.fst)
      · obtain ⟨r, ended⟩ := Option.isSome_iff_exists.mp (done i asked)
        cases busy.symm.trans (Config.result?_eq_some.mp ended)
      · exact asked (((stopAll_confined _).reaches trivial stops).2 i _ busy).1

private def spawned (set : Nat) (aborted : Bool) : List AdapterTask :=
  [⟨1, .idle, [⟨7, "INBOX", true, none, 0⟩], set, aborted⟩, ⟨1, .poll, [⟨8, "Sent", false, none, 0⟩], set, aborted⟩]

private def twoStarts : List (AccountId × Option ImapConnectionParams) :=
  [(1, some bothFolders), (1, some bothFolders), (1, none), (1, none)]

/-- The handle is out, and the tasks of the other start may go on to their next await. -/
private def stopped (tasks : List AdapterTask) (told : List Nat) : ImapAdapter :=
  ⟨[], spawned 0 true ++ tasks, told, 2, (1, none) :: twoStarts⟩

private def Stopping (s : ImapAdapter) (p : Prog adapterMachine.toSignature (Except Error Unit)) : Prop :=
  ∃ c : Config adapterMachine AccountId (Except Error Unit),
    (stopAll [1]).Reaches (.idle startedTwice.state) c ∧ c.state = s ∧ c.threads 1 = some p

private theorem Stopping.advance {s : ImapAdapter} {o : AdapterOp} {next : o.Reply → Prog adapterMachine.toSignature _}
    (h : Stopping s (.call o next)) (ok : allowed s o ()) :
    Stopping (adapterMachine.exec o () s).2 (next (adapterMachine.exec o () s).1) := by
  obtain ⟨c, run, rfl, there⟩ := h
  have step := @System.Step.advance _ _ _ _ (stopAll [1]) c 1 o next there () ok
  exact ⟨_, run.tail step, rfl, by rw [Config.set_threads, if_pos rfl]⟩

private theorem Stopping.ends {s t : ImapAdapter} {p : Prog adapterMachine.toSignature _} (h : Stopping s p)
    (ended : TaskEnds s t) : Stopping t p := by
  obtain ⟨c, run, rfl, there⟩ := h
  have step := @System.Step.outside _ _ _ _ (stopAll [1]) c t ended
  exact ⟨_, run.tail step, rfl, there⟩

private theorem stopped_reached : Stopping (stopped [] [1]) (.ret (.ok ())) := by
  have asked : Stopping startedTwice.state (stopAccount 1).run :=
    ⟨_, .single (System.step_start (i := 1) rfl ⟨List.mem_singleton_self 1, rfl⟩), rfl, rfl⟩
  have told : Stopping (stopped (spawned 1 false) [1]) (.call (.drain ⟨1, bothFolders⟩) fun _ => .ret (.ok ())) :=
    (asked.advance (o := .remove 1) trivial).advance (o := .cancel ⟨1, bothFolders⟩) trivial
  have idled : TaskEnds (stopped (spawned 1 false) [1]) (stopped (spawned 1 false).tail [1]) :=
    .mk ⟨1, .idle, [⟨7, "INBOX", true, none, 0⟩], 1, false⟩ (by decide) (.inr List.mem_cons_self)
  have polled : TaskEnds (stopped (spawned 1 false).tail [1]) (stopped [] [1]) :=
    .mk ⟨1, .poll, [⟨8, "Sent", false, none, 0⟩], 1, false⟩ (by decide) (.inr List.mem_cons_self)
  have drained : ∀ t ∈ (stopped [] [1]).tasks, t.set ≠ 1 := by decide
  exact ((told.ends idled).ends polled).advance drained

/-- The database is gone, the account that was started is stopped all the same. -/
theorem stop_all_leaves_nothing_startedTwice : ∃ c' : Config adapterMachine AccountId (Except Error Unit),
    (stopAll [1]).Reaches (.idle startedTwice.state) c' ∧ c'.state.tracked = [] ∧ ∀ a, c'.state.running a = [] := by
  obtain ⟨c', stops, -, there⟩ := stopped_reached
  refine ⟨c', stops, stop_all_leaves_nothing startedTwice_reached ?_ (.error (.repositoryError .notFound)) stops ?_⟩
  · rintro i ⟨o, next, busy⟩
    cases i <;> cases busy
  · intro id asked
    obtain rfl := List.mem_singleton.mp asked
    rw [Config.result?_eq_some.mpr there]
    rfl

end ImapAdapter
end MailKeep
