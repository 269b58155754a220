import MailKeep.Program.Embed

/-! Programs that issue certain operations only, and invariants that those operations keep. -/
namespace Program

variable {S T : Signature} {M : Machine} {ι α β ε ε' : Type}

/-- Whatever the replies, the program issues nothing that `P` does not have. -/
def Prog.Only (P : S.Op → Prop) : Prog S α → Prop
  | .ret _ => True
  | .call o next => P o ∧ ∀ r, (next r).Only P

/-- The same for an action. -/
abbrev OnlyAct (P : S.Op → Prop) (x : Action S ε α) : Prop := x.run.Only P

section
variable {P : S.Op → Prop}

theorem Prog.Only.bind {p : Prog S α} {f : α → Prog S β} (hp : p.Only P) (hf : ∀ a, (f a).Only P) :
    (p >>= f).Only P := by
  induction p with
  | ret a => exact hf a
  | call o next ih => exact ⟨hp.1, fun r => ih r (hp.2 r)⟩

theorem Prog.Only.embed {Q : T.Op → Prop} (E : Embedding S T) {p : Prog S α} (h : p.Only P)
    (ops : ∀ o, P o → Q (E.op o)) : (p.embed E).Only Q := by
  induction p with
  | ret a => trivial
  | call o next ih => exact ⟨ops o h.1, fun r => ih _ (h.2 _)⟩

theorem Prog.only_true (p : Prog S α) : p.Only fun _ => True := by
  induction p with
  | ret a => trivial
  | call o next ih => exact ⟨trivial, ih⟩

/-- What each operation of a program keeps, every run of it keeps. -/
theorem Prog.Only.runs {P : M.Op → Prop} {allowed : M.Allowed} {inv : M.State → Prop} {p : Prog M.toSignature α}
    (h : p.Only P) (keeps : ∀ s o c, P o → allowed s o c → inv s → inv (M.exec o c s).2) {s s' : M.State} {a : α}
    (run : Runs allowed p s a s') (hs : inv s) : inv s' := by
  induction p generalizing s with
  | ret b =>
    obtain ⟨-, rfl⟩ := runs_ret.mp run
    exact hs
  | call o next ih =>
    obtain ⟨c, ok, run⟩ := runs_call.mp run
    exact ih _ (h.2 _) run (keeps s o c h.1 ok hs)

/-- Where each of its operations may come to the same elsewhere, so may the whole program. -/
theorem Prog.Only.runs_imp {P : M.Op → Prop} {allowed allowed' : M.Allowed} {p : Prog M.toSignature α} (h : p.Only P)
    (imp : ∀ s o c, P o → allowed s o c → allowed' s o c) {s s' : M.State} {a : α} (run : Runs allowed p s a s') :
    Runs allowed' p s a s' := by
  induction p generalizing s with
  | ret b => exact runs_ret.mpr (runs_ret.mp run)
  | call o next ih =>
    obtain ⟨c, ok, run⟩ := runs_call.mp run
    exact runs_call.mpr ⟨c, imp s o c h.1 ok, ih _ (h.2 _) run⟩

namespace OnlyAct

theorem pure (a : α) : OnlyAct P (pure a : Action S ε α) := trivial

theorem throw (e : ε) : OnlyAct P (throw e : Action S ε α) := trivial

theorem op {o : S.Op} {k : S.Reply o → Except ε α} (h : P o) :
    OnlyAct P (.mk (.call o fun r => .ret (k r)) : Action S ε α) :=
  ⟨h, fun _ => trivial⟩

theorem liftResult (r : Except ε α) : OnlyAct P (liftResult r : Action S ε α) := trivial

theorem seq {x : Action S ε α} {f : α → Action S ε β} (hx : OnlyAct P x) (hf : ∀ a, OnlyAct P (f a)) :
    OnlyAct P (x >>= f) := by
  apply Prog.Only.bind hx
  intro r
  cases r with
  | ok a => exact hf a
  | error e => trivial

theorem mapErr {x : Action S ε α} {f : ε → ε'} (hx : OnlyAct P x) : OnlyAct P (mapErr f x) :=
  Prog.Only.bind hx fun _ => trivial

theorem attempt {x : Action S ε α} (hx : OnlyAct P x) : OnlyAct P (attempt x : Action S ε' (Except ε α)) :=
  Prog.Only.bind hx fun _ => trivial

theorem embed {Q : T.Op → Prop} (E : Embedding S T) {x : Action S ε α} (hx : OnlyAct P x)
    (ops : ∀ o, P o → Q (E.op o)) : OnlyAct Q (E.act x) :=
  Prog.Only.embed E hx ops

end OnlyAct
end

variable [DecidableEq ι]

/-- Threads that issue certain operations only, and an invariant that these keep. -/
structure System.Confined (sys : System M ι α) (P : ι → M.Op → Prop) (inv : M.State → Prop) : Prop where
  root : ∀ s i p, inv s → sys.root s i p → p.Only (P i)
  op : ∀ s i o c, inv s → P i o → sys.allowed s o c → inv (M.exec o c s).2
  env : ∀ s t, inv s → sys.env s t → inv t
  crash : ∀ s t, inv s → sys.crash s t → inv t

/-- The invariant holds along every run, and no thread issues anything else. -/
theorem System.Confined.reaches {sys : System M ι α} {P : ι → M.Op → Prop} {inv : M.State → Prop}
    (confined : sys.Confined P inv) {s : M.State} {c : Config M ι α} (h : inv s) (run : sys.Reaches (.idle s) c) :
    inv c.state ∧ ∀ i p, c.threads i = some p → p.Only (P i) := by
  refine System.invariant (fun c => inv c.state ∧ ∀ i p, c.threads i = some p → p.Only (P i)) ?_ run
    ⟨h, fun i p hp => (by cases hp)⟩
  rintro c c' ⟨hi, only⟩ step
  cases step with
  | start i p free may =>
    refine ⟨hi, fun j q hq => ?_⟩
    rw [Config.set_threads] at hq
    split at hq
    · rename_i same
      exact Option.some.inj hq ▸ same ▸ confined.root _ _ _ hi may
    · exact only j q hq
  | advance i o next at_call ch ok =>
    obtain ⟨here, rest⟩ := only i _ at_call
    refine ⟨confined.op _ i o ch hi here ok, fun j q hq => ?_⟩
    rw [Config.set_threads] at hq
    split at hq
    · rename_i same
      exact Option.some.inj hq ▸ same ▸ rest _
    · exact only j q hq
  | outside t he => exact ⟨confined.env _ _ hi he, only⟩
  | crash t hc => exact ⟨confined.crash _ _ hi hc, fun j q hq => (by cases hq)⟩

end Program
