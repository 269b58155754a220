import MailKeep.Program.Basic
import Mathlib.Logic.Function.Basic
import Mathlib.Data.Set.Defs

/-! Machines run programs one operation at a time. A machine's environment picks the
outcome of each operation; a system adds threads, outside activity and crashes. -/
namespace Program
open Relation

/-- Each operation is a total function of the state and of the outcome the environment picks. -/
structure Machine extends Signature where
  State : Type
  Choice : Op → Type
  exec : (o : Op) → Choice o → State → Reply o × State

variable {M : Machine} {ι α β : Type}

/-- Which outcomes the environment may pick in a state. -/
abbrev Machine.Allowed (M : Machine) := M.State → (o : M.Op) → M.Choice o → Prop

/-- One operation of a single program that runs alone. -/
inductive Step (allowed : M.Allowed) :
    Prog M.toSignature α × M.State → Prog M.toSignature α × M.State → Prop
  | call {o next s} (c : M.Choice o) (ok : allowed s o c) :
      Step allowed (.call o next, s) (next (M.exec o c s).1, (M.exec o c s).2)

/-- Every prefix of a run: the program may be cut off after any operation. -/
abbrev Reaches (allowed : M.Allowed) :
    Prog M.toSignature α × M.State → Prog M.toSignature α × M.State → Prop :=
  ReflTransGen (Step allowed)

/-- A complete run from one state to another with its result. -/
abbrev Runs (allowed : M.Allowed) (p : Prog M.toSignature α) (s : M.State) (a : α) (s' : M.State) : Prop :=
  Reaches allowed (p, s) (.ret a, s')

theorem runs_ret {allowed : M.Allowed} {a b : α} {s s' : M.State} :
    Runs allowed (.ret a) s b s' ↔ a = b ∧ s = s' := by
  constructor
  · intro h
    rcases ReflTransGen.cases_head h with he | ⟨x, hs, -⟩
    · cases he
      exact ⟨rfl, rfl⟩
    · cases hs
  · rintro ⟨rfl, rfl⟩
    exact .refl

theorem runs_call {allowed : M.Allowed} {o : M.Op} {next : M.Reply o → Prog M.toSignature α}
    {s s' : M.State} {a : α} :
    Runs allowed (.call o next) s a s' ↔
      ∃ c, allowed s o c ∧ Runs allowed (next (M.exec o c s).1) (M.exec o c s).2 a s' := by
  constructor
  · intro h
    rcases ReflTransGen.cases_head h with he | ⟨x, hs, hr⟩
    · cases he
    · cases hs with
      | call c ok => exact ⟨c, ok, hr⟩
  · rintro ⟨c, ok, hr⟩
    exact .head (.call c ok) hr

theorem runs_bind {allowed : M.Allowed} {p : Prog M.toSignature α} {f : α → Prog M.toSignature β}
    {s s' : M.State} {b : β} :
    Runs allowed (p >>= f) s b s' ↔ ∃ a t, Runs allowed p s a t ∧ Runs allowed (f a) t b s' := by
  induction p generalizing s with
  | ret a =>
    refine ⟨fun h => ⟨a, s, .refl, h⟩, ?_⟩
    rintro ⟨a', t, h, h'⟩
    obtain ⟨rfl, rfl⟩ := runs_ret.mp h
    exact h'
  | call o next ih =>
    rw [Prog.call_bind, runs_call]
    simp only [ih, runs_call]
    constructor
    · rintro ⟨c, ok, a, t, h, h'⟩
      exact ⟨a, t, ⟨c, ok, h⟩, h'⟩
    · rintro ⟨a, t, ⟨c, ok, h⟩, h'⟩
      exact ⟨c, ok, a, t, h, h'⟩

/-- An action that succeeds has succeeded in each part. -/
theorem runs_seq {ε : Type} {allowed : M.Allowed} {x : Action M.toSignature ε α} {f : α → Action M.toSignature ε β}
    {s s' : M.State} {b : β} :
    Runs allowed (x >>= f).run s (Except.ok b) s' ↔
      ∃ a t, Runs allowed x.run s (Except.ok a) t ∧ Runs allowed (f a).run t (Except.ok b) s' := by
  change Runs allowed (x.run >>= _) s (Except.ok b) s' ↔ _
  rw [runs_bind]
  constructor
  · rintro ⟨r, t, h, h'⟩
    cases r with
    | ok a => exact ⟨a, t, h, h'⟩
    | error e => cases (runs_ret.mp h').1
  · rintro ⟨a, t, h, h'⟩
    exact ⟨.ok a, t, h, h'⟩

/-- An action ends where its first part fails, or its second part ends. -/
theorem runs_seq_cases {ε : Type} {allowed : M.Allowed} {x : Action M.toSignature ε α}
    {f : α → Action M.toSignature ε β}
    {s s' : M.State} {r : Except ε β} : Runs allowed (x >>= f).run s r s' ↔
    (∃ a t, Runs allowed x.run s (Except.ok a) t ∧ Runs allowed (f a).run t r s') ∨
      ∃ e, r = .error e ∧ Runs allowed x.run s (Except.error e) s' := by
  change Runs allowed (x.run >>= _) s r s' ↔ _
  rw [runs_bind]
  constructor
  · rintro ⟨q, t, first, second⟩
    cases q with
    | ok a => exact .inl ⟨a, t, first, second⟩
    | error e =>
      obtain ⟨rfl, rfl⟩ := runs_ret.mp second
      exact .inr ⟨e, rfl, first⟩
  · rintro (⟨a, t, first, second⟩ | ⟨e, rfl, first⟩)
    · exact ⟨.ok a, t, first, second⟩
    · exact ⟨.error e, s', first, .refl⟩

/-- One operation and what is read off its reply. -/
theorem runs_op {allowed : M.Allowed} {o : M.Op} {k : M.Reply o → α} {s s' : M.State} {a : α} :
    Runs allowed (.call o fun r => .ret (k r)) s a s' ↔
      ∃ c, allowed s o c ∧ k (M.exec o c s).1 = a ∧ (M.exec o c s).2 = s' := by
  simp only [runs_call, runs_ret]

theorem runs_mapErr {ε ε' : Type} {allowed : M.Allowed} {f : ε → ε'} {x : Action M.toSignature ε α}
    {s s' : M.State} {a : α} :
    Runs allowed (mapErr f x).run s (Except.ok a) s' ↔ Runs allowed x.run s (Except.ok a) s' := by
  change Runs allowed (x.run >>= fun r => .ret (r.mapError f)) s (Except.ok a) s' ↔ _
  rw [runs_bind]
  constructor
  · rintro ⟨r, t, h, h'⟩
    obtain ⟨hr, rfl⟩ := runs_ret.mp h'
    cases r with
    | ok b =>
      cases hr
      exact h
    | error e => cases hr
  · exact fun h => ⟨.ok a, s', h, .refl⟩

theorem runs_attempt {ε ε' : Type} {allowed : M.Allowed} {x : Action M.toSignature ε α}
    {s s' : M.State} {r : Except ε α} :
    Runs allowed (attempt x : Action M.toSignature ε' (Except ε α)).run s (Except.ok r) s' ↔
      Runs allowed x.run s r s' := by
  change Runs allowed (x.run >>= fun r => .ret (.ok r)) s (Except.ok r) s' ↔ _
  rw [runs_bind]
  constructor
  · rintro ⟨r', t, h, h'⟩
    obtain ⟨hr, rfl⟩ := runs_ret.mp h'
    cases hr
    exact h
  · exact fun h => ⟨r, s', h, .refl⟩

theorem runs_liftResult {ε : Type} {allowed : M.Allowed} {r : Except ε α} {s s' : M.State} {a : α} :
    Runs allowed (liftResult r : Action M.toSignature ε α).run s (Except.ok a) s' ↔ r = .ok a ∧ s = s' := runs_ret

theorem runs_reject {ε : Type} {allowed : M.Allowed} {c : Prop} [Decidable c] {e : ε} {s s' : M.State} {u : Unit} :
    Runs allowed (reject c e : Action M.toSignature ε Unit).run s (Except.ok u) s' ↔ ¬ c ∧ s = s' := by
  unfold reject
  split
  · rename_i h
    exact iff_of_false (fun hr => by cases (runs_ret.mp hr).1) fun hn => hn.1 h
  · rename_i h
    exact runs_ret.trans ⟨fun hr => ⟨h, hr.2⟩, fun hr => ⟨rfl, hr.2⟩⟩

/-- No program runs forever, whatever the outcomes. -/
theorem step_acc (allowed : M.Allowed) (p : Prog M.toSignature α) (s : M.State) :
    Acc (fun x y => Step allowed y x) (p, s) := by
  induction p generalizing s with
  | ret a => exact ⟨_, fun y h => by cases h⟩
  | call o next ih => exact ⟨_, fun y h => by cases h with | call c ok => exact ih _ _⟩

theorem no_infinite_run (allowed : M.Allowed) (p : Prog M.toSignature α) (s : M.State)
    (run : Nat → Prog M.toSignature α × M.State) (start : run 0 = (p, s)) :
    ¬ ∀ i, Step allowed (run i) (run (i + 1)) := by
  intro steps
  have key : ∀ x, Acc (fun x y => Step allowed y x) x → ∀ i, run i ≠ x := by
    intro x hx
    induction hx with
    | intro x _ ih => exact fun i h => ih _ (h ▸ steps i) (i + 1) rfl
  exact key _ (step_acc allowed p s) 0 start

/-- The run in which the environment answers each operation by `pick`, for so many operations. -/
def Machine.follow (M : Machine) (pick : (o : M.Op) → M.Choice o) :
    Nat → Prog M.toSignature α × M.State → Prog M.toSignature α × M.State
  | 0, x => x
  | _, (.ret a, s) => (.ret a, s)
  | n + 1, (.call o next, s) => M.follow pick n (next (M.exec o (pick o) s).1, (M.exec o (pick o) s).2)

/-- The outcomes `pick` has are allowed where the run meets them. -/
def Machine.Follows (M : Machine) (allowed : M.Allowed) (pick : (o : M.Op) → M.Choice o) :
    Nat → Prog M.toSignature α × M.State → Prop
  | 0, _ => True
  | _, (.ret _, _) => True
  | n + 1, (.call o next, s) =>
    allowed s o (pick o) ∧ M.Follows allowed pick n (next (M.exec o (pick o) s).1, (M.exec o (pick o) s).2)

theorem Machine.Follows.reaches {allowed : M.Allowed} {pick : (o : M.Op) → M.Choice o} {n : Nat}
    {x : Prog M.toSignature α × M.State} (h : M.Follows allowed pick n x) :
      Reaches allowed x (M.follow pick n x) := by
  induction n generalizing x with
  | zero => exact .refl
  | succ n ih =>
    rcases x with ⟨a | ⟨o, next⟩, s⟩
    · exact .refl
    · exact .head (.call (pick o) h.1) (ih h.2)

theorem Machine.Follows.imp {small large : M.Allowed} {pick : (o : M.Op) → M.Choice o}
    (h : ∀ s o, small s o (pick o) → large s o (pick o)) {n : Nat} {x : Prog M.toSignature α × M.State}
    (hx : M.Follows small pick n x) : M.Follows large pick n x := by
  induction n generalizing x with
  | zero => trivial
  | succ n ih =>
    rcases x with ⟨a | ⟨o, next⟩, s⟩
    · trivial
    · exact ⟨h s o hx.1, ih hx.2⟩

theorem reaches_follow {allowed : M.Allowed} {pick : (o : M.Op) → M.Choice o} (ok : ∀ s o, allowed s o (pick o))
    (n : Nat) (x : Prog M.toSignature α × M.State) : Reaches allowed x (M.follow pick n x) := by
  apply Machine.Follows.reaches
  induction n generalizing x with
  | zero => trivial
  | succ n ih =>
    rcases x with ⟨a | ⟨o, next⟩, s⟩
    · trivial
    · exact ⟨ok s o, ih _⟩

/-- Threads over one shared state. `root` lists the programs an idle thread may start, `env`
what happens outside the threads, `crash` what a crash does to the state. -/
structure System (M : Machine) (ι α : Type) where
  allowed : M.Allowed
  root : M.State → ι → Prog M.toSignature α → Prop
  env : M.State → M.State → Prop
  crash : M.State → M.State → Prop

structure Config (M : Machine) (ι α : Type) where
  state : M.State
  threads : ι → Option (Prog M.toSignature α)

/-- No thread has started. -/
def Config.idle (s : M.State) : Config M ι α := ⟨s, fun _ => none⟩

/-- The thread waits for the reply to an operation. -/
def Config.Busy (c : Config M ι α) (i : ι) : Prop := ∃ o next, c.threads i = some (.call o next)

/-- What a thread has returned, if it has. -/
def Config.result? (c : Config M ι α) (i : ι) : Option α :=
  match c.threads i with
  | some (.ret a) => some a
  | _ => none

theorem Config.result?_eq_some {c : Config M ι α} {i : ι} {a : α} :
    c.result? i = some a ↔ c.threads i = some (.ret a) := by
  unfold Config.result?
  split <;> simp_all

variable [DecidableEq ι]

/-- Thread `i` goes on as `p` in the state `s`; every other thread keeps its place. -/
def Config.set (c : Config M ι α) (s : M.State) (i : ι) (p : Prog M.toSignature α) : Config M ι α :=
  ⟨s, Function.update c.threads i (some p)⟩

@[simp] theorem Config.set_state (c : Config M ι α) (s : M.State) (i : ι) (p : Prog M.toSignature α) :
    (c.set s i p).state = s := rfl

theorem Config.set_threads (c : Config M ι α) (s : M.State) (i : ι) (p : Prog M.toSignature α) (j : ι) :
    (c.set s i p).threads j = if j = i then some p else c.threads j := by
  simp [Config.set, Function.update_apply]

inductive System.Step (sys : System M ι α) : Config M ι α → Config M ι α → Prop
  | start {c : Config M ι α} (i : ι) (p : Prog M.toSignature α) (free : ¬ c.Busy i)
      (may : sys.root c.state i p) :
      Step sys c (c.set c.state i p)
  | advance {c : Config M ι α} (i : ι) (o : M.Op) (next : M.Reply o → Prog M.toSignature α)
      (at_call : c.threads i = some (.call o next)) (ch : M.Choice o)
      (ok : sys.allowed c.state o ch) :
      Step sys c (c.set (M.exec o ch c.state).2 i (next (M.exec o ch c.state).1))
  | outside {c : Config M ι α} (s : M.State) (h : sys.env c.state s) : Step sys c ⟨s, c.threads⟩
  | crash {c : Config M ι α} (s : M.State) (h : sys.crash c.state s) : Step sys c (.idle s)

abbrev System.Reaches (sys : System M ι α) : Config M ι α → Config M ι α → Prop :=
  ReflTransGen sys.Step

/-- Thread `i` issues its next operation, with the outcome `pick` has for it. -/
def Config.advance (pick : (o : M.Op) → M.Choice o) (c : Config M ι α) (i : ι) : Config M ι α :=
  match c.threads i with
  | some (.call o next) => c.set (M.exec o (pick o) c.state).2 i (next (M.exec o (pick o) c.state).1)
  | _ => c

theorem Config.advance_other (pick : (o : M.Op) → M.Choice o) (c : Config M ι α) {i j : ι} (h : j ≠ i) :
    (c.advance pick i).threads j = c.threads j := by
  unfold Config.advance
  split
  · rw [Config.set_threads, if_neg h]
  · rfl

theorem System.step_start {sys : System M ι α} {c : Config M ι α} {i : ι} {p : Prog M.toSignature α}
    (idle : c.threads i = none) (may : sys.root c.state i p) : sys.Step c (c.set c.state i p) := by
  refine .start i p ?_ may
  rintro ⟨o, next, busy⟩
  cases idle.symm.trans busy

theorem System.step_advance {sys : System M ι α} {pick : (o : M.Op) → M.Choice o}
    {c : Config M ι α} {i : ι} {o : M.Op}
    {next : M.Reply o → Prog M.toSignature α} (at_call : c.threads i = some (.call o next))
    (ok : sys.allowed c.state o (pick o)) : sys.Step c (c.advance pick i) := by
  unfold Config.advance
  rw [at_call]
  exact .advance i o next at_call (pick o) ok

theorem System.reaches_advance {sys : System M ι α} {pick : (o : M.Op) → M.Choice o}
    (ok : ∀ s o, sys.allowed s o (pick o)) (c : Config M ι α) (i : ι) : sys.Reaches c (c.advance pick i) := by
  unfold Config.advance
  split
  · rename_i o next h
    exact .single (.advance i o next h (pick o) (ok _ o))
  · exact .refl

/-- A schedule names the thread that moves next and the outcomes it meets. -/
theorem System.reaches_schedule {sys : System M ι α} {pick : ι → (o : M.Op) → M.Choice o}
    (ok : ∀ i s o, sys.allowed s o (pick i o)) (c : Config M ι α) (schedule : List ι) :
    sys.Reaches c (schedule.foldl (fun c i => c.advance (pick i) i) c) := by
  induction schedule generalizing c with
  | nil => exact .refl
  | cons i rest ih => exact (System.reaches_advance (ok i) c i).trans (ih _)

/-- The outcomes a schedule meets are allowed where it meets them. -/
def System.Permits (sys : System M ι α) (pick : ι → (o : M.Op) → M.Choice o) : Config M ι α → List ι → Prop
  | _, [] => True
  | c, i :: rest =>
    (match c.threads i with
      | some (.call o _) => sys.allowed c.state o (pick i o)
      | _ => True) ∧ sys.Permits pick (c.advance (pick i) i) rest

theorem System.Permits.reaches {sys : System M ι α} {pick : ι → (o : M.Op) → M.Choice o} {c : Config M ι α}
    {schedule : List ι} (h : sys.Permits pick c schedule) :
    sys.Reaches c (schedule.foldl (fun c i => c.advance (pick i) i) c) := by
  induction schedule generalizing c with
  | nil => exact .refl
  | cons i rest ih =>
    have turn : sys.Reaches c (c.advance (pick i) i) := by
      have ok := h.1
      cases hi : c.threads i with
      | none =>
        unfold Config.advance
        rw [hi]
      | some p =>
        cases p with
        | ret a =>
          unfold Config.advance
          rw [hi]
        | call o next =>
          rw [hi] at ok
          exact .single (System.step_advance hi ok)
    exact turn.trans (ih h.2)

theorem System.permits_of_allowed {sys : System M ι α} {pick : ι → (o : M.Op) → M.Choice o}
    (ok : ∀ i s o, sys.allowed s o (pick i o)) (c : Config M ι α) (schedule : List ι) :
      sys.Permits pick c schedule := by
  induction schedule generalizing c with
  | nil => trivial
  | cons i rest ih =>
    refine ⟨?_, ih _⟩
    split
    · exact ok i _ _
    · trivial

/-- A property of the configuration that each step keeps holds along every run. -/
theorem System.invariant {sys : System M ι α} (inv : Config M ι α → Prop)
    (step : ∀ c c', inv c → sys.Step c c' → inv c') {c c' : Config M ι α}
    (h : sys.Reaches c c') (hc : inv c) : inv c' := by
  induction h with
  | refl => exact hc
  | tail _ hs ih => exact step _ _ ih hs

/-- What some moment of the run had and its end has, every moment in between has. -/
def System.Unbroken (sys : System M ι α) (s : M.State) (c : Config M ι α) (there : M.State → Prop) : Prop :=
  ∀ c₀ c₁, sys.Reaches (.idle s) c₀ → sys.Reaches c₀ c₁ → sys.Reaches c₁ c → there c₀.state → there c₁.state

end Program
