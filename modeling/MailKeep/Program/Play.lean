import MailKeep.Program.Embed

/-! Programs run to their end with the outcomes fixed beforehand, one for each operation. -/
namespace Program

variable {M N : Machine} {α β ε ε' : Type}

/-- What the program returns, and the state it leaves. -/
def Machine.play (M : Machine) (pick : (o : M.Op) → M.Choice o) : Prog M.toSignature α → M.State → α × M.State
  | .ret a, s => (a, s)
  | .call o next, s => M.play pick (next (M.exec o (pick o) s).1) (M.exec o (pick o) s).2

variable {pick : (o : M.Op) → M.Choice o} {s t : M.State}

theorem play_bind (p : Prog M.toSignature α) (f : α → Prog M.toSignature β) :
    M.play pick (p >>= f) s = M.play pick (f (M.play pick p s).1) (M.play pick p s).2 := by
  induction p generalizing s with
  | ret a => rfl
  | call o next ih => exact ih _

/-- After a success the rest is played, after a failure nothing is. -/
theorem play_seq_ok {x : Action M.toSignature ε α} {f : α → Action M.toSignature ε β} {a : α}
    (h : M.play pick x.run s = (.ok a, t)) : M.play pick (x >>= f).run s = M.play pick (f a).run t := by
  change M.play pick (x.run >>= _) s = _
  rw [play_bind, h]
  rfl

theorem play_seq_error {x : Action M.toSignature ε α} {f : α → Action M.toSignature ε β} {e : ε}
    (h : M.play pick x.run s = (.error e, t)) : M.play pick (x >>= f).run s = (.error e, t) := by
  change M.play pick (x.run >>= _) s = _
  rw [play_bind, h]
  rfl

theorem play_mapErr {x : Action M.toSignature ε α} {f : ε → ε'} :
    M.play pick (mapErr f x).run s = ((M.play pick x.run s).1.mapError f, (M.play pick x.run s).2) := by
  change M.play pick (x.run >>= fun r => .ret (r.mapError f)) s = _
  rw [play_bind]
  rfl

/-- A program of a part of a machine plays on the part as it would by itself. -/
theorem play_embed (E : Embedding M.toSignature N.toSignature) (pick : (o : M.Op) → M.Choice o)
    (pickN : (o : N.Op) → N.Choice o) (view : N.State → M.State)
    (same : ∀ o s, E.reply o (N.exec (E.op o) (pickN (E.op o)) s).1 = (M.exec o (pick o) (view s)).1 ∧
      view (N.exec (E.op o) (pickN (E.op o)) s).2 = (M.exec o (pick o) (view s)).2)
        (p : Prog M.toSignature α) (s : N.State) :
    (N.play pickN (p.embed E) s).1 = (M.play pick p (view s)).1 ∧
      view (N.play pickN (p.embed E) s).2 = (M.play pick p (view s)).2 := by
  induction p generalizing s with
  | ret a => exact ⟨rfl, rfl⟩
  | call o next ih =>
    obtain ⟨reply, after⟩ := same o s
    obtain ⟨result, state⟩ := ih (E.reply o (N.exec (E.op o) (pickN (E.op o)) s).1)
      (N.exec (E.op o) (pickN (E.op o)) s).2
    refine ⟨result.trans ?_, state.trans ?_⟩
    · rw [reply, after]
      rfl
    · rw [reply, after]
      rfl

end Program
