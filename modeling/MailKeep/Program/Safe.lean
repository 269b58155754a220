import MailKeep.Program.Machine

/-! A rely/guarantee logic for programs, with a crash invariant: `valid` holds after every
single operation, so it also describes what a program cut off anywhere leaves behind. -/
namespace Program
open Relation

variable {M : Machine} {ι α β ε : Type}

/-- What a thread may assume and must keep: `valid` holds of every state it sees or leaves,
`rely` bounds what the others do between two of its operations, `guar` what it does itself. -/
structure Contract (M : Machine) where
  allowed : M.Allowed
  valid : M.State → Prop
  rely : M.State → M.State → Prop
  guar : M.State → M.State → Prop

/-- From `s` on, each operation of the program keeps the contract and each result satisfies `post`. -/
def Safe (C : Contract M) (post : α → M.State → Prop) : Prog M.toSignature α → M.State → Prop
  | .ret a, s => ∀ s₁, C.valid s₁ → C.rely s s₁ → post a s₁
  | .call o next, s => ∀ s₁, C.valid s₁ → C.rely s s₁ → ∀ c, C.allowed s₁ o c →
      C.valid (M.exec o c s₁).2 ∧ C.guar s₁ (M.exec o c s₁).2 ∧
        Safe C post (next (M.exec o c s₁).1) (M.exec o c s₁).2

/-- The environment's steps compose and may be empty. -/
structure Contract.Stable (C : Contract M) : Prop where
  refl : ∀ s, C.rely s s
  trans : ∀ {a b c}, C.rely a b → C.rely b c → C.rely a c

variable {C : Contract M} {post : α → M.State → Prop}

theorem Safe.mono {p : Prog M.toSignature α} {s t : M.State} (st : C.Stable)
    (h : Safe C post p s) (step : C.rely s t) : Safe C post p t := by
  cases p with
  | ret a => exact fun s₁ hv hr => h s₁ hv (st.trans step hr)
  | call o next => exact fun s₁ hv hr => h s₁ hv (st.trans step hr)

theorem Safe.weaken {p : Prog M.toSignature α} {s : M.State} {post' : α → M.State → Prop}
    (h : Safe C post p s) (imp : ∀ a t, C.valid t → post a t → post' a t) : Safe C post' p s := by
  induction p generalizing s with
  | ret a => exact fun s₁ hv hr => imp a s₁ hv (h s₁ hv hr)
  | call o next ih =>
    intro s₁ hv hr c ok
    obtain ⟨hv', hg, hs⟩ := h s₁ hv hr c ok
    exact ⟨hv', hg, ih _ hs⟩

/-- Results of a safe program stay described by `post` while the others go on. -/
theorem Safe.keep {p : Prog M.toSignature α} {s : M.State} (st : C.Stable) (h : Safe C post p s) :
    Safe C (fun a t => ∀ t₁, C.valid t₁ → C.rely t t₁ → post a t₁) p s := by
  induction p generalizing s with
  | ret a => exact fun s₁ _ hr t₁ hv₁ hr₁ => h t₁ hv₁ (st.trans hr hr₁)
  | call o next ih =>
    intro s₁ hv hr c ok
    obtain ⟨hv', hg, hs⟩ := h s₁ hv hr c ok
    exact ⟨hv', hg, ih _ hs⟩

theorem Safe.bind {p : Prog M.toSignature α} {f : α → Prog M.toSignature β} {s : M.State}
    {post' : β → M.State → Prop} (st : C.Stable)
    (h : Safe C (fun a t => Safe C post' (f a) t) p s) : Safe C post' (p >>= f) s := by
  induction p generalizing s with
  | ret a =>
    change Safe C post' (f a) s
    cases hf : f a with
    | ret b =>
      intro s₁ hv hr
      have hb : Safe C post' (.ret b) s₁ := hf ▸ h s₁ hv hr
      exact hb s₁ hv (st.refl _)
    | call o next =>
      intro s₁ hv hr
      have hb : Safe C post' (.call o next) s₁ := hf ▸ h s₁ hv hr
      exact hb s₁ hv (st.refl _)
  | call o next ih =>
    intro s₁ hv hr c ok
    obtain ⟨hv', hg, hs⟩ := h s₁ hv hr c ok
    exact ⟨hv', hg, ih _ hs⟩

/-- Where every operation keeps the contract, so does every program. -/
theorem Safe.of_ops (keeps : ∀ s o c, C.valid s → C.allowed s o c → C.valid (M.exec o c s).2 ∧ C.guar s (M.exec o c s).2)
    (p : Prog M.toSignature α) (s : M.State) : Safe C (fun _ _ => True) p s := by
  induction p generalizing s with
  | ret a => exact fun _ _ _ => trivial
  | call o next ih =>
    intro s₁ hv _ c ok
    obtain ⟨hv', hg⟩ := keeps s₁ o c hv ok
    exact ⟨hv', hg, ih _ _⟩

/-- The contract of a program that runs alone: nothing happens between its operations. -/
def Contract.alone (allowed : M.Allowed) (valid : M.State → Prop) (guar : M.State → M.State → Prop) :
    Contract M := ⟨allowed, valid, Eq, guar⟩

theorem Contract.alone_stable (allowed : M.Allowed) (valid : M.State → Prop)
    (guar : M.State → M.State → Prop) : (Contract.alone allowed valid guar).Stable :=
  ⟨fun _ => rfl, fun h h' => h.trans h'⟩

/-- The contract of a thread among threads that keep the same one. -/
def Contract.mutual (allowed : M.Allowed) (valid : M.State → Prop) (guar : M.State → M.State → Prop) :
    Contract M := ⟨allowed, valid, guar, guar⟩

/-- A prefix of a run of a safe program ends in a valid state, with the rest still safe. -/
theorem Safe.reaches {p p' : Prog M.toSignature α} {s s' : M.State} (st : C.Stable)
    (h : Safe C post p s) (hv : C.valid s) (hr : Reaches C.allowed (p, s) (p', s')) :
    C.valid s' ∧ Safe C post p' s' := by
  suffices key : ∀ x, Reaches C.allowed (p, s) x → C.valid x.2 ∧ Safe C post x.1 x.2 from key _ hr
  intro x hx
  induction hx with
  | refl => exact ⟨hv, h⟩
  | tail _ hs ih =>
    cases hs with
    | call c ok =>
      obtain ⟨hv', _, hs'⟩ := ih.2 _ ih.1 (st.refl _) c ok
      exact ⟨hv', hs'⟩

theorem Safe.runs {p : Prog M.toSignature α} {s s' : M.State} {a : α} (st : C.Stable)
    (h : Safe C post p s) (hv : C.valid s) (hr : Runs C.allowed p s a s') :
    C.valid s' ∧ post a s' := by
  obtain ⟨hv', hs⟩ := h.reaches st hv hr
  exact ⟨hv', hs _ hv' (st.refl _)⟩

/-- Every thread keeps its own contract; what one guarantees the others rely on. -/
structure System.Sound (sys : System M ι α) (C : ι → Contract M)
    (post : ι → α → M.State → Prop) (valid : M.State → Prop) : Prop where
  stable : ∀ i, (C i).Stable
  valid_iff : ∀ i s, (C i).valid s ↔ valid s
  allows : ∀ i s o c, sys.allowed s o c → (C i).allowed s o c
  agree : ∀ i j, i ≠ j → ∀ s t, valid s → valid t → (C i).guar s t → (C j).rely s t
  root : ∀ s i p, valid s → sys.root s i p → Safe (C i) (post i) p s
  env : ∀ s t, valid s → sys.env s t → valid t ∧ ∀ i, (C i).rely s t
  crash : ∀ s t, valid s → sys.crash s t → valid t

/-- The state is valid and every started thread is safe from it on. -/
def AllSafe (C : ι → Contract M) (post : ι → α → M.State → Prop) (valid : M.State → Prop)
    (c : Config M ι α) : Prop :=
  valid c.state ∧ ∀ i p, c.threads i = some p → Safe (C i) (post i) p c.state

theorem AllSafe.idle {C : ι → Contract M} {post : ι → α → M.State → Prop} {valid : M.State → Prop}
    {s : M.State} (hv : valid s) : AllSafe C post valid (.idle s) :=
  ⟨hv, fun _ _ h => by cases h⟩

/-- A thread that has returned has a result its postcondition describes. -/
theorem AllSafe.returned {C : ι → Contract M} {post : ι → α → M.State → Prop}
    {valid : M.State → Prop} {c : Config M ι α} (h : AllSafe C post valid c) (i : ι)
    (st : (C i).Stable) (hvi : (C i).valid c.state) {a : α} (ha : c.threads i = some (.ret a)) :
    post i a c.state :=
  h.2 i _ ha _ hvi (st.refl _)

variable [DecidableEq ι]

theorem System.Sound.step {sys : System M ι α} {C : ι → Contract M}
    {post : ι → α → M.State → Prop} {valid : M.State → Prop} (sound : sys.Sound C post valid)
    {c c' : Config M ι α} (h : AllSafe C post valid c) (hs : sys.Step c c') :
    AllSafe C post valid c' := by
  obtain ⟨hv, ht⟩ := h
  cases hs with
  | start i p free may =>
    refine ⟨hv, fun j q hq => ?_⟩
    rw [Config.set_threads] at hq
    split at hq
    · rename_i hj
      subst hj
      cases hq
      exact sound.root c.state _ _ hv may
    · exact ht j q hq
  | advance i o next at_call ch ok =>
    obtain ⟨hv', hg, hs'⟩ := ht i _ at_call _ ((sound.valid_iff i _).mpr hv)
      ((sound.stable i).refl _) ch (sound.allows i _ _ _ ok)
    have hvt := (sound.valid_iff i _).mp hv'
    refine ⟨hvt, fun j q hq => ?_⟩
    rw [Config.set_threads] at hq
    split at hq
    · rename_i hj
      subst hj
      cases hq
      exact hs'
    · rename_i hj
      exact (ht j q hq).mono (sound.stable j) (sound.agree i j (Ne.symm hj) _ _ hv hvt hg)
  | outside s he =>
    obtain ⟨hv', hr⟩ := sound.env _ _ hv he
    exact ⟨hv', fun j q hq => (ht j q hq).mono (sound.stable j) (hr j)⟩
  | crash s hc => exact ⟨sound.crash _ _ hv hc, fun j q hq => by cases hq⟩

/-- Safety of the threads carries over to every configuration of every run. -/
theorem System.Sound.reaches {sys : System M ι α} {C : ι → Contract M}
    {post : ι → α → M.State → Prop} {valid : M.State → Prop} (sound : sys.Sound C post valid)
    {c c' : Config M ι α} (h : AllSafe C post valid c) (hr : sys.Reaches c c') :
    AllSafe C post valid c' :=
  System.invariant (AllSafe C post valid) (fun _ _ hc hs => sound.step hc hs) hr h

/-- A fact that every guarantee, the outside and crashes keep is never lost. -/
theorem System.Sound.keeps {sys : System M ι α} {C : ι → Contract M}
    {post : ι → α → M.State → Prop} {valid : M.State → Prop} (sound : sys.Sound C post valid)
    {fact : M.State → Prop} (guar : ∀ i s t, (C i).guar s t → fact s → fact t)
    (env : ∀ s t, sys.env s t → fact s → fact t) (crash : ∀ s t, sys.crash s t → fact s → fact t)
    {c c' : Config M ι α} (h : AllSafe C post valid c) (hr : sys.Reaches c c') (hf : fact c.state) :
    fact c'.state := by
  suffices key : AllSafe C post valid c' ∧ fact c'.state from key.2
  refine System.invariant (fun c => AllSafe C post valid c ∧ fact c.state) ?_ hr ⟨h, hf⟩
  rintro c c' ⟨hs, hf⟩ hstep
  refine ⟨sound.step hs hstep, ?_⟩
  cases hstep with
  | start i p free may => exact hf
  | advance i o next at_call ch ok =>
    obtain ⟨_, hg, _⟩ := hs.2 i _ at_call _ ((sound.valid_iff i _).mpr hs.1)
      ((sound.stable i).refl _) ch (sound.allows i _ _ _ ok)
    exact guar i _ _ hg hf
  | outside s he => exact env _ _ he hf
  | crash s hc => exact crash _ _ hc hf

/-- `Safe` for an action, with one postcondition for each way it can end. -/
def SafeAct (C : Contract M) (ok : α → M.State → Prop) (err : ε → M.State → Prop)
    (x : Action M.toSignature ε α) (s : M.State) : Prop :=
  Safe C (fun r t => match r with | .ok a => ok a t | .error e => err e t) x.run s

variable {ok : α → M.State → Prop} {err : ε → M.State → Prop}

theorem SafeAct.pure {a : α} {s : M.State} (h : ∀ t, C.valid t → C.rely s t → ok a t) :
    SafeAct C ok err (pure a : Action M.toSignature ε α) s := h

theorem SafeAct.throw {e : ε} {s : M.State} (h : ∀ t, C.valid t → C.rely s t → err e t) :
    SafeAct C ok err (throw e : Action M.toSignature ε α) s := h

/-- One operation whose reply `k` reads as a success or a failure. -/
theorem SafeAct.call {o : M.Op} {k : M.Reply o → Except ε α} {s : M.State}
    (h : ∀ s₁, C.valid s₁ → C.rely s s₁ → ∀ c, C.allowed s₁ o c →
      C.valid (M.exec o c s₁).2 ∧ C.guar s₁ (M.exec o c s₁).2 ∧
        ∀ t, C.valid t → C.rely (M.exec o c s₁).2 t →
          (∀ a, k (M.exec o c s₁).1 = .ok a → ok a t) ∧ ∀ e, k (M.exec o c s₁).1 = .error e → err e t) :
    SafeAct C ok err (ExceptT.mk (.call o fun r => .ret (k r)) : Action M.toSignature ε α) s := by
  intro s₁ hv hr c hc
  obtain ⟨hv', hg, hpost⟩ := h s₁ hv hr c hc
  refine ⟨hv', hg, fun t ht hrt => ?_⟩
  obtain ⟨hok, herr⟩ := hpost t ht hrt
  cases hk : k (M.exec o c s₁).1 with
  | ok a => exact hok a hk
  | error e => exact herr e hk

/-- `ready` tells where an operation may be issued so that it keeps the contract. -/
def Contract.Readied (C : Contract M) (ready : M.State → M.Op → Prop) : Prop :=
  ∀ s o c, C.valid s → ready s o → C.allowed s o c → C.valid (M.exec o c s).2 ∧ C.guar s (M.exec o c s).2

/-- An operation that is ready, read as a success or a failure. -/
theorem SafeAct.ready {ready : M.State → M.Op → Prop} (keeps : C.Readied ready) {o : M.Op}
    {k : M.Reply o → Except ε α}
    {s : M.State} (at_call : ∀ s₁, C.valid s₁ → C.rely s s₁ → ready s₁ o)
    (post : ∀ s₁ c, C.valid s₁ → C.rely s s₁ → C.allowed s₁ o c → ∀ t, C.rely (M.exec o c s₁).2 t →
      (∀ a, k (M.exec o c s₁).1 = .ok a → ok a t) ∧ ∀ e, k (M.exec o c s₁).1 = .error e → err e t) :
    SafeAct C ok err (ExceptT.mk (.call o fun r => .ret (k r)) : Action M.toSignature ε α) s := by
  apply SafeAct.call
  intro s₁ hv hr c hc
  obtain ⟨valid, kept⟩ := keeps s₁ o c hv (at_call s₁ hv hr) hc
  exact ⟨valid, kept, fun t _ ht => post s₁ c hv hr hc t ht⟩

/-- Safe, with nothing said of the result. -/
abbrev Harmless (C : Contract M) (x : Action M.toSignature ε α) (s : M.State) : Prop :=
  SafeAct C (fun _ _ => True) (fun _ _ => True) x s

/-- One that is ready anywhere. -/
theorem SafeAct.plain {ready : M.State → M.Op → Prop} (keeps : C.Readied ready) {o : M.Op}
    {k : M.Reply o → Except ε α}
    {s : M.State} (anywhere : ∀ s₁, ready s₁ o) :
    Harmless C (ExceptT.mk (.call o fun r => .ret (k r)) : Action M.toSignature ε α) s :=
  SafeAct.ready keeps (fun s₁ _ _ => anywhere s₁) fun _ _ _ _ _ _ _ => ⟨fun _ _ => trivial, fun _ _ => trivial⟩

theorem SafeAct.bind {x : Action M.toSignature ε α} {f : α → Action M.toSignature ε β}
    {ok : β → M.State → Prop} {s : M.State} (st : C.Stable)
    (h : SafeAct C (fun a t => SafeAct C ok err (f a) t) err x s) : SafeAct C ok err (x >>= f) s := by
  refine Safe.bind st ((Safe.keep st h).weaken ?_)
  intro r t hv ht
  cases r with
  | ok a => exact Safe.mono st (ht t hv (st.refl _)) (st.refl _)
  | error e => exact ht

/-- Sequencing through an assertion on the state in between. -/
theorem SafeAct.seq {x : Action M.toSignature ε α} {f : α → Action M.toSignature ε β}
    {mid : α → M.State → Prop} {ok : β → M.State → Prop} {s : M.State} (st : C.Stable)
    (hx : SafeAct C mid err x s) (hf : ∀ a t, C.valid t → mid a t → SafeAct C ok err (f a) t) :
    SafeAct C ok err (x >>= f) s := by
  refine SafeAct.bind st (Safe.weaken hx fun r t hv h => ?_)
  cases r with
  | ok a => exact hf a t hv h
  | error e => exact h

/-- Among threads of one contract the guarantee holds from the start of a program to each of its results. -/
theorem Safe.frame {allowed : M.Allowed} {valid : M.State → Prop} {guar : M.State → M.State → Prop}
    {p : Prog M.toSignature α} {s : M.State} (st : (Contract.mutual allowed valid guar).Stable)
    (h : Safe (.mutual allowed valid guar) post p s) :
    Safe (.mutual allowed valid guar) (fun a t => post a t ∧ guar s t) p s := by
  suffices key : ∀ s₀, guar s₀ s → Safe (.mutual allowed valid guar) (fun a t => post a t ∧ guar s₀ t) p s from
    key s (st.refl s)
  induction p generalizing s with
  | ret a => exact fun s₀ h₀ s₁ hv hr => ⟨h s₁ hv hr, st.trans h₀ hr⟩
  | call o next ih =>
    intro s₀ h₀ s₁ hv hr c ok
    obtain ⟨hv', hg, hs⟩ := h s₁ hv hr c ok
    exact ⟨hv', hg, ih _ hs s₀ (st.trans (st.trans h₀ hr) hg)⟩

/-- Sequencing there: what the first part may not take back still holds for the second. -/
theorem SafeAct.follow {allowed : M.Allowed} {valid : M.State → Prop} {guar : M.State → M.State → Prop}
    {x : Action M.toSignature ε α} {f : α → Action M.toSignature ε β} {mid : α → M.State → Prop}
    {ok : β → M.State → Prop} {s : M.State} (st : (Contract.mutual allowed valid guar).Stable)
    (hx : SafeAct (.mutual allowed valid guar) mid err x s)
    (hf : ∀ a t, valid t → guar s t → mid a t → SafeAct (.mutual allowed valid guar) ok err (f a) t) :
    SafeAct (.mutual allowed valid guar) ok err (x >>= f) s := by
  refine SafeAct.bind st (Safe.weaken (Safe.frame st hx) fun r t hv h => ?_)
  cases r with
  | ok a => exact hf a t hv h.2 h.1
  | error e => exact h.1

theorem SafeAct.attempt {ε' : Type} {x : Action M.toSignature ε α} {bad : ε → M.State → Prop}
    {err : ε' → M.State → Prop} {s : M.State} (st : C.Stable) (h : SafeAct C ok bad x s) :
    SafeAct C (fun r t => (∀ a, r = .ok a → ok a t) ∧ ∀ e, r = .error e → bad e t) err (Program.attempt x) s := by
  refine Safe.bind st ((Safe.keep st h).weaken fun r t _ ht u hu hr => ?_)
  have := ht u hu hr
  cases r with
  | ok a => exact ⟨fun _ ha => Except.ok.inj ha ▸ this, fun _ he => (by cases he)⟩
  | error e => exact ⟨fun _ ha => (by cases ha), fun _ he => Except.error.inj he ▸ this⟩

theorem SafeAct.mapErr {ε' : Type} {f : ε → ε'} {x : Action M.toSignature ε α}
    {err : ε' → M.State → Prop} {s : M.State}
    (st : C.Stable) (h : SafeAct C ok (fun e => err (f e)) x s) : SafeAct C ok err (Program.mapErr f x) s := by
  refine Safe.bind st ((Safe.keep st h).weaken fun r t _ ht u hu hr => ?_)
  cases r with
  | ok a => exact ht u hu hr
  | error e => exact ht u hu hr

theorem SafeAct.liftResult {r : Except ε α} {s : M.State}
    (good : ∀ a, r = .ok a → ∀ t, C.valid t → C.rely s t → ok a t)
    (bad : ∀ e, r = .error e → ∀ t, C.valid t → C.rely s t → err e t) :
    SafeAct C ok err (Program.liftResult r : Action M.toSignature ε α) s := by
  cases r with
  | ok a => exact good a rfl
  | error e => exact bad e rfl

theorem SafeAct.reject {c : Prop} [Decidable c] {e : ε} {ok : Unit → M.State → Prop} {s : M.State}
    (good : ¬ c → ∀ t, C.valid t → C.rely s t → ok () t) (bad : c → ∀ t, C.valid t → C.rely s t → err e t) :
    SafeAct C ok err (Program.reject c e : Action M.toSignature ε Unit) s := by
  unfold Program.reject
  split
  · rename_i h
    exact SafeAct.throw (bad h)
  · rename_i h
    exact SafeAct.pure (good h)

theorem Harmless.pure {a : α} {s : M.State} : Harmless C (pure a : Action M.toSignature ε α) s :=
  SafeAct.pure fun _ _ _ => trivial

theorem Harmless.throw {e : ε} {s : M.State} : Harmless C (throw e : Action M.toSignature ε α) s :=
  SafeAct.throw fun _ _ _ => trivial

theorem Harmless.liftResult {r : Except ε α} {s : M.State} :
    Harmless C (Program.liftResult r : Action M.toSignature ε α) s :=
  SafeAct.liftResult (fun _ _ _ _ _ => trivial) fun _ _ _ _ _ => trivial

/-- Where nothing is needed of what a part leaves but that it is valid. -/
theorem Harmless.seq {x : Action M.toSignature ε α} {f : α → Action M.toSignature ε β} {s : M.State} (st : C.Stable)
    (hx : Harmless C x s) (hf : ∀ a t, C.valid t → Harmless C (f a) t) : Harmless C (x >>= f) s :=
  SafeAct.seq st hx fun a t hv _ => hf a t hv

end Program
