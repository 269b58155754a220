import MailKeep.Program.Only

/-! Two systems side by side: programs that issue matching operations, and the runs of one matched by runs of the other. -/
namespace Program

variable {S T S' T' : Signature} {M N : Machine} {ι α α' β β' ε ε' : Type}

/-- `R o o' ρ` when the operation `o` stands for `o'`; then `ρ` tells which of their replies match. -/
abbrev Matching (S T : Signature) := (o : S.Op) → (o' : T.Op) → (S.Reply o → T.Reply o' → Prop) → Prop

/-- The programs issue matching operations as long as the replies match, and `post` relates what they return. -/
def Prog.Matches (R : Matching S T) (post : α → β → Prop) : Prog S α → Prog T β → Prop
  | .ret a, .ret b => post a b
  | .call o next, .call o' next' => ∃ ρ, R o o' ρ ∧ ∀ r r', ρ r r' → (next r).Matches R post (next' r')
  | .ret _, .call _ _ | .call _ _, .ret _ => False

/-- Two outcomes: the same error, or results that `post` relates. -/
inductive Likewise (post : α → β → Prop) : Except ε α → Except ε β → Prop
  | ok {a : α} {b : β} (h : post a b) : Likewise post (.ok a) (.ok b)
  | error (e : ε) : Likewise post (.error e) (.error e)

theorem Likewise.refl (r : Except ε α) : Likewise Eq r r := by
  cases r with
  | ok a => exact .ok rfl
  | error e => exact .error e

theorem Likewise.eq {x y : Except ε α} (h : Likewise Eq x y) : x = y := by
  cases h with
  | ok h => exact congrArg Except.ok h
  | error e => rfl

/-- Matching programs that may fail. -/
abbrev MatchesAct (R : Matching S T) (post : α → β → Prop) (x : Action S ε α) (y : Action T ε β) : Prop :=
  x.run.Matches R (Likewise post) y.run

section
variable {R : Matching S T} {post : α → β → Prop}

theorem Prog.Matches.weaken {post' : α → β → Prop} {p : Prog S α} {q : Prog T β} (h : p.Matches R post q)
    (hw : ∀ a b, post a b → post' a b) : p.Matches R post' q := by
  induction p generalizing q with
  | ret a =>
    cases q with
    | ret b => exact hw a b h
    | call o next => exact h.elim
  | call o next ih =>
    cases q with
    | ret b => exact h.elim
    | call o' next' =>
      obtain ⟨ρ, ops, rest⟩ := h
      exact ⟨ρ, ops, fun r r' match_ => ih r (rest r r' match_)⟩

theorem Prog.Matches.bind {post' : α' → β' → Prop} {p : Prog S α} {q : Prog T β} {f : α → Prog S α'} {g : β → Prog T β'}
    (h : p.Matches R post q) (hf : ∀ a b, post a b → (f a).Matches R post' (g b)) :
    (p >>= f).Matches R post' (q >>= g) := by
  induction p generalizing q with
  | ret a =>
    cases q with
    | ret b => exact hf a b h
    | call o next => exact h.elim
  | call o next ih =>
    cases q with
    | ret b => exact h.elim
    | call o' next' =>
      obtain ⟨ρ, ops, rest⟩ := h
      exact ⟨ρ, ops, fun r r' match_ => ih r (rest r r' match_)⟩

/-- What is made of equal results is equal. -/
theorem Prog.Matches.map {p : Prog S α} {q : Prog T α} (h : p.Matches R Eq q) (f : α → β) :
    (p >>= fun a => .ret (f a)).Matches R Eq (q >>= fun a => .ret (f a)) :=
  h.bind fun _ _ same => congrArg f same

/-- A program matches itself where each operation it may issue stands for itself. -/
theorem Prog.Matches.of_only {R : Matching S S} {P : S.Op → Prop} {p : Prog S α} (h : p.Only P)
    (ops : ∀ o, P o → R o o Eq) : p.Matches R Eq p := by
  induction p with
  | ret a => exact rfl
  | call o next ih =>
    refine ⟨Eq, ops o h.1, fun r r' same => ?_⟩
    subst same
    exact ih r (h.2 r)

theorem Prog.Matches.embed {R' : Matching S' T'} {E : Embedding S S'} {F : Embedding T T'} {p : Prog S α} {q : Prog T β}
    (h : p.Matches R post q)
    (ops : ∀ o o' ρ, R o o' ρ → R' (E.op o) (F.op o') fun r r' => ρ (E.reply o r) (F.reply o' r')) :
    (p.embed E).Matches R' post (q.embed F) := by
  induction p generalizing q with
  | ret a =>
    cases q with
    | ret b => exact h
    | call o next => exact h.elim
  | call o next ih =>
    cases q with
    | ret b => exact h.elim
    | call o' next' =>
      obtain ⟨ρ, match_, rest⟩ := h
      exact ⟨_, ops o o' ρ match_, fun r r' replies => ih _ (rest _ _ replies)⟩

namespace MatchesAct

theorem pure {a : α} {b : β} (h : post a b) : MatchesAct R post (pure a : Action S ε α) (pure b : Action T ε β) :=
  Likewise.ok h

theorem throw (e : ε) : MatchesAct R post (throw e : Action S ε α) (throw e : Action T ε β) := Likewise.error e

theorem liftResult {x : Except ε α} {y : Except ε β} (h : Likewise post x y) :
    MatchesAct R post (liftResult x : Action S ε α) (liftResult y : Action T ε β) := h

/-- One operation whose reply is read as a success or a failure. -/
theorem op {o : S.Op} {o' : T.Op} {ρ : S.Reply o → T.Reply o' → Prop} {k : S.Reply o → Except ε α}
    {k' : T.Reply o' → Except ε β} (h : R o o' ρ) (hk : ∀ r r', ρ r r' → Likewise post (k r) (k' r')) :
    MatchesAct R post (.mk (.call o fun r => .ret (k r)) : Action S ε α)
      (.mk (.call o' fun r => .ret (k' r)) : Action T ε β) :=
  ⟨ρ, h, hk⟩

theorem seq {post' : α' → β' → Prop} {x : Action S ε α} {y : Action T ε β} {f : α → Action S ε α'}
    {g : β → Action T ε β'} (h : MatchesAct R post x y) (hf : ∀ a b, post a b → MatchesAct R post' (f a) (g b)) :
    MatchesAct R post' (x >>= f) (y >>= g) := by
  refine Prog.Matches.bind h fun a b outcome => ?_
  cases outcome with
  | ok related => exact hf _ _ related
  | error e => exact Likewise.error e

theorem mapErr {x : Action S ε α} {y : Action T ε β} {f : ε → ε'} (h : MatchesAct R post x y) :
    MatchesAct R post (mapErr f x) (mapErr f y) := by
  refine Prog.Matches.bind h fun a b outcome => ?_
  cases outcome with
  | ok related => exact Likewise.ok related
  | error e => exact Likewise.error (f e)

theorem attempt {x : Action S ε α} {y : Action T ε β} (h : MatchesAct R post x y) :
    MatchesAct R (Likewise post) (attempt x : Action S ε' (Except ε α)) (attempt y : Action T ε' (Except ε β)) :=
  Prog.Matches.bind h fun _ _ outcome => Likewise.ok outcome

theorem run {x : Action S ε α} {y : Action T ε α} (h : MatchesAct R Eq x y) : x.run.Matches R Eq y.run :=
  h.weaken fun _ _ outcome => outcome.eq

/-- An action that matches itself. -/
theorem of_only {R : Matching S S} {P : S.Op → Prop} {x : Action S ε α} (h : OnlyAct P x)
    (ops : ∀ o, P o → R o o Eq) : MatchesAct R Eq x x := by
  refine (Prog.Matches.of_only h ops).weaken fun a b same => ?_
  subst same
  exact Likewise.refl a

end MatchesAct
end

variable [DecidableEq ι]

/-- Each step of the first system has one of the second to match it. -/
structure System.Simulates (sys : System M ι α) (sys' : System N ι β) (R : Matching M.toSignature N.toSignature)
    (rel : M.State → N.State → Prop) (post : α → β → Prop) : Prop where
  root : ∀ s s' i p, rel s s' → sys.root s i p → ∃ p', sys'.root s' i p' ∧ p.Matches R post p'
  op : ∀ s s' o o' ρ c, rel s s' → R o o' ρ → sys.allowed s o c → ∃ c', sys'.allowed s' o' c' ∧
    ρ (M.exec o c s).1 (N.exec o' c' s').1 ∧ rel (M.exec o c s).2 (N.exec o' c' s').2
  env : ∀ s s' t, rel s s' → sys.env s t → ∃ t', sys'.env s' t' ∧ rel t t'
  crash : ∀ s s' t, rel s s' → sys.crash s t → ∃ t', sys'.crash s' t' ∧ rel t t'

/-- Related states, and in each thread matching programs. -/
structure Config.Matches (R : Matching M.toSignature N.toSignature) (rel : M.State → N.State → Prop)
    (post : α → β → Prop) (c : Config M ι α) (c' : Config N ι β) : Prop where
  state : rel c.state c'.state
  threads : ∀ i, Option.Rel (Prog.Matches R post) (c.threads i) (c'.threads i)

namespace Config.Matches
variable {R : Matching M.toSignature N.toSignature} {rel : M.State → N.State → Prop} {post : α → β → Prop}
  {c : Config M ι α} {c' : Config N ι β}

omit [DecidableEq ι] in
theorem idle {s : M.State} {s' : N.State} (h : rel s s') :
    Matches R rel post (Config.idle s : Config M ι α) (Config.idle s') := ⟨h, fun _ => .none⟩

theorem set (h : c.Matches R rel post c') {s : M.State} {s' : N.State} (state : rel s s') {i : ι}
    {p : Prog M.toSignature α} {p' : Prog N.toSignature β} (match_ : p.Matches R post p') :
    (c.set s i p).Matches R rel post (c'.set s' i p') := by
  refine ⟨state, fun j => ?_⟩
  rw [Config.set_threads, Config.set_threads]
  split
  · exact .some match_
  · exact h.threads j

omit [DecidableEq ι] in
theorem busy (h : c.Matches R rel post c') {i : ι} (busy : c'.Busy i) : c.Busy i := by
  obtain ⟨o', next', hi⟩ := busy
  have related := h.threads i
  rw [hi] at related
  cases hp : c.threads i with
  | none =>
    rw [hp] at related
    cases related
  | some p =>
    rw [hp] at related
    cases related with
    | some match_ =>
      cases p with
      | ret a => exact match_.elim
      | call o next => exact ⟨o, next, hp⟩

omit [DecidableEq ι] in
/-- Where the results are related by equality, the threads have returned the same. -/
theorem result? {c' : Config N ι α} (h : c.Matches R rel Eq c') (i : ι) : c'.result? i = c.result? i := by
  have related := h.threads i
  unfold Config.result?
  cases hp : c.threads i with
  | none =>
    rw [hp] at related
    cases hq : c'.threads i with
    | none => rfl
    | some q =>
      rw [hq] at related
      cases related
  | some p =>
    rw [hp] at related
    cases hq : c'.threads i with
    | none =>
      rw [hq] at related
      cases related
    | some q =>
      rw [hq] at related
      cases related with
      | some match_ =>
        cases p with
        | ret a =>
          cases q with
          | ret b => exact congrArg some (Eq.symm match_)
          | call o next => exact match_.elim
        | call o next =>
          cases q with
          | ret b => exact match_.elim
          | call o' next' => rfl

end Config.Matches

theorem System.Simulates.step {sys : System M ι α} {sys' : System N ι β} {R : Matching M.toSignature N.toSignature}
    {rel : M.State → N.State → Prop} {post : α → β → Prop} (sim : sys.Simulates sys' R rel post)
    {c d : Config M ι α} {c' : Config N ι β} (h : c.Matches R rel post c') (step : sys.Step c d) :
    ∃ d', sys'.Step c' d' ∧ d.Matches R rel post d' := by
  cases step with
  | start i p free may =>
    obtain ⟨p', may', match_⟩ := sim.root _ _ i p h.state may
    exact ⟨_, .start i p' (fun busy => free (h.busy busy)) may', h.set h.state match_⟩
  | advance i o next at_call ch ok =>
    have related := h.threads i
    rw [at_call] at related
    cases hq : c'.threads i with
    | none =>
      rw [hq] at related
      cases related
    | some q =>
      rw [hq] at related
      cases related with
      | some match_ =>
        cases q with
        | ret b => exact match_.elim
        | call o' next' =>
          obtain ⟨ρ, ops, rest⟩ := match_
          obtain ⟨ch', ok', replies, state⟩ := sim.op _ _ o o' ρ ch h.state ops ok
          exact ⟨_, .advance i o' next' hq ch' ok', h.set state (rest _ _ replies)⟩
  | outside s he =>
    obtain ⟨s', he', state⟩ := sim.env _ _ s h.state he
    exact ⟨_, .outside s' he', state, h.threads⟩
  | crash s hc =>
    obtain ⟨s', hc', state⟩ := sim.crash _ _ s h.state hc
    exact ⟨_, .crash s' hc', .idle state⟩

/-- Every run has one of the second system to match it. -/
theorem System.Simulates.reaches {sys : System M ι α} {sys' : System N ι β} {R : Matching M.toSignature N.toSignature}
    {rel : M.State → N.State → Prop} {post : α → β → Prop} (sim : sys.Simulates sys' R rel post)
    {s : M.State} {s' : N.State} (start : rel s s') {c : Config M ι α} (run : sys.Reaches (.idle s) c) :
    ∃ c', sys'.Reaches (.idle s') c' ∧ c.Matches R rel post c' := by
  induction run with
  | refl => exact ⟨_, .refl, .idle start⟩
  | tail _ step ih =>
    obtain ⟨c', run', match_⟩ := ih
    obtain ⟨d', step', match_'⟩ := sim.step match_ step
    exact ⟨d', run'.tail step', match_'⟩

-- Beyond this module a match is put together with the lemmas, and never by looking into the programs.
attribute [irreducible] Prog.Matches

end Program
