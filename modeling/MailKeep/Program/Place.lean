import MailKeep.Program.Only

/-! Places: what a thread's own history says about where its program stands. A discipline tells what
each operation needs of the place and what it makes of it; an invariant may then speak of the shared
state and of every thread's place at once. -/
namespace Program
open Relation

/-- `ready` is what a thread's place must be when it issues an operation, `after` what the reply makes of it. -/
structure Discipline (M : Machine) (ι P : Type) where
  start : P
  ready : ι → P → M.Op → Prop
  after : P → (o : M.Op) → M.Reply o → P
  done : P → Prop

variable {M : Machine} {ι P α : Type}

/-- From this place on the program issues each operation where it is ready for it. -/
def Discipline.Fits (D : Discipline M ι P) (i : ι) : P → Prog M.toSignature α → Prop
  | place, .ret _ => D.done place
  | place, .call o next => D.ready i place o ∧ ∀ r, D.Fits i (D.after place o r) (next r)

/-- The same for a part of a program: `post` describes its result and the place it leads to. -/
def Discipline.Leads (D : Discipline M ι P) (i : ι) (post : α → P → Prop) : P → Prog M.toSignature α → Prop
  | place, .ret a => post a place
  | place, .call o next => D.ready i place o ∧ ∀ r, D.Leads i post (D.after place o r) (next r)

namespace Discipline.Leads
variable {D : Discipline M ι P} {i : ι} {place : P} {β ε ε' : Type}

theorem fits {p : Prog M.toSignature α} (h : D.Leads i (fun _ => D.done) place p) : D.Fits i place p := by
  induction p generalizing place with
  | ret a => exact h
  | call o next ih => exact ⟨h.1, fun r => ih r (h.2 r)⟩

theorem weaken {post post' : α → P → Prop} {p : Prog M.toSignature α} (h : D.Leads i post place p)
    (imp : ∀ a q, post a q → post' a q) : D.Leads i post' place p := by
  induction p generalizing place with
  | ret a => exact imp a place h
  | call o next ih => exact ⟨h.1, fun r => ih r (h.2 r)⟩

theorem bind {post : β → P → Prop} {p : Prog M.toSignature α} {f : α → Prog M.toSignature β}
    (h : D.Leads i (fun a q => D.Leads i post q (f a)) place p) : D.Leads i post place (p >>= f) := by
  induction p generalizing place with
  | ret a => exact h
  | call o next ih => exact ⟨h.1, fun r => ih r (h.2 r)⟩

/-- An action goes on where the first part succeeds. -/
theorem seq {x : Action M.toSignature ε α} {f : α → Action M.toSignature ε β} {post : Except ε β → P → Prop}
    (h : D.Leads i (fun r q => match r with
      | .ok a => D.Leads i post q (f a).run
      | .error e => post (.error e) q) place x.run) :
    D.Leads i post place (x >>= f).run := by
  refine bind (h.weaken fun r q hr => ?_)
  cases r with
  | ok a => exact hr
  | error e => exact hr

theorem attempt {x : Action M.toSignature ε α} {post : Except ε' (Except ε α) → P → Prop}
    (h : D.Leads i (fun r => post (.ok r)) place x.run) :
    D.Leads i post place (Program.attempt x : Action M.toSignature ε' (Except ε α)).run :=
  bind h

theorem mapErr {x : Action M.toSignature ε α} {f : ε → ε'} {post : Except ε' α → P → Prop}
    (h : D.Leads i (fun r => post (r.mapError f)) place x.run) : D.Leads i post place (Program.mapErr f x).run :=
  bind h

/-- A program that issues only what is ready anywhere may stand anywhere. -/
theorem of_only {P' : M.Op → Prop} {p : Prog M.toSignature α} (h : p.Only P')
    (anywhere : ∀ q o, P' o → D.ready i q o) :
    D.Leads i (fun _ _ => True) place p := by
  induction p generalizing place with
  | ret a => trivial
  | call o next ih => exact ⟨anywhere place o h.1, fun r => ih r (h.2 r)⟩

/-- A program that issues only what moves no place stays where it is. -/
theorem stay {P' : M.Op → Prop} {p : Prog M.toSignature α} (h : p.Only P')
    (still : ∀ q o, P' o → D.ready i q o ∧ ∀ r, D.after q o r = q) : D.Leads i (fun _ q => q = place) place p := by
  induction p with
  | ret a => exact rfl
  | call o next ih =>
    obtain ⟨ready, same⟩ := still place o h.1
    exact ⟨ready, fun r => (same r).symm ▸ ih r (h.2 r)⟩

/-- The program of a small machine within a large one, where `g` takes the places of one to places of the other. -/
theorem embed {N : Machine} {P' : Type} {D' : Discipline N ι P'}
    (E : Embedding M.toSignature N.toSignature) (g : P → P')
    (post : α → P' → Prop) (ready : ∀ q o, D.ready i q o → D'.ready i (g q) (E.op o))
    (after : ∀ q o r, D'.after (g q) (E.op o) r = g (D.after q o (E.reply o r)))
    {p : Prog M.toSignature α} (h : D.Leads i (fun a q => post a (g q)) place p) :
    D'.Leads i post (g place) (p.embed E) := by
  induction p generalizing place with
  | ret a => exact h
  | call o next ih => exact ⟨ready place o h.1, fun r => after place o r ▸ ih _ (h.2 _)⟩

end Discipline.Leads

/-- Each thread's program fits its place; a thread that has not started is at the start. -/
def Discipline.Linked (D : Discipline M ι P) (c : Config M ι α) (places : ι → P) : Prop :=
  ∀ i, (∀ p, c.threads i = some p → D.Fits i (places i) p) ∧ (c.threads i = none → places i = D.start)

theorem Discipline.linked_idle (D : Discipline M ι P) (s : M.State) :
    D.Linked (.idle s : Config M ι α) fun _ => D.start :=
  fun _ => ⟨fun _ hp => (by cases hp), fun _ => rfl⟩

variable [DecidableEq ι]

theorem Discipline.Linked.set {D : Discipline M ι P} {c : Config M ι α} {places : ι → P} {i : ι} {place : P}
    {p : Prog M.toSignature α} {s : M.State} (linked : D.Linked c places) (fits : D.Fits i place p) :
    D.Linked (c.set s i p) (Function.update places i place) := by
  intro j
  rw [Config.set_threads, Function.update_apply]
  by_cases hj : j = i
  · rw [if_pos hj, if_pos hj, hj]
    exact ⟨fun q hq => Option.some.inj hq ▸ fits, fun hn => (by cases hn)⟩
  · rw [if_neg hj, if_neg hj]
    exact linked j

/-- An invariant of the state and the places, kept by each operation that is ready. -/
structure Discipline.Keeps (D : Discipline M ι P) (sys : System M ι α) (inv : M.State → (ι → P) → Prop) : Prop where
  begins : ∀ s places i p, inv s places → sys.root s i p → (places i = D.start ∨ D.done (places i)) →
    ∃ place, D.Fits i place p ∧ inv s (Function.update places i place)
  op : ∀ s places i o ch, inv s places → D.ready i (places i) o → sys.allowed s o ch →
    inv (M.exec o ch s).2 (Function.update places i (D.after (places i) o (M.exec o ch s).1))
  env : ∀ s t places, inv s places → sys.env s t → inv t places
  crash : ∀ s t places, inv s places → sys.crash s t → inv t fun _ => D.start

theorem Discipline.Keeps.step {D : Discipline M ι P} {sys : System M ι α} {inv : M.State → (ι → P) → Prop}
    (keeps : D.Keeps sys inv) {c c' : Config M ι α} {places : ι → P} (linked : D.Linked c places)
    (h : inv c.state places) (hs : sys.Step c c') : ∃ places', D.Linked c' places' ∧ inv c'.state places' := by
  cases hs with
  | start i p free may =>
    have idle : places i = D.start ∨ D.done (places i) := by
      cases hi : c.threads i with
      | none => exact .inl ((linked i).2 hi)
      | some q =>
        cases q with
        | ret a => exact .inr ((linked i).1 _ hi)
        | call o next => exact absurd ⟨o, next, hi⟩ free
    obtain ⟨place, fits, hi⟩ := keeps.begins _ _ _ _ h may idle
    exact ⟨_, linked.set fits, hi⟩
  | advance i o next at_call ch ok =>
    obtain ⟨ready, fits⟩ := (linked i).1 _ at_call
    exact ⟨_, linked.set (fits _), keeps.op _ _ _ _ _ h ready ok⟩
  | outside s he => exact ⟨places, linked, keeps.env _ _ _ h he⟩
  | crash s hc => exact ⟨fun _ => D.start, D.linked_idle s, keeps.crash _ _ _ h hc⟩

/-- The invariant holds along every run. -/
theorem Discipline.Keeps.reaches {D : Discipline M ι P} {sys : System M ι α} {inv : M.State → (ι → P) → Prop}
    (keeps : D.Keeps sys inv) {c c' : Config M ι α} {places : ι → P} (linked : D.Linked c places)
    (h : inv c.state places) (hr : sys.Reaches c c') : ∃ places', D.Linked c' places' ∧ inv c'.state places' :=
  System.invariant (fun c => ∃ places, D.Linked c places ∧ inv c.state places)
    (fun _ _ ⟨_, linked, hi⟩ hs => keeps.step linked hi hs) hr ⟨places, linked, h⟩

end Program
