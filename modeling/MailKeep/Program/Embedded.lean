import MailKeep.Program.Only
import MailKeep.Program.Safe

/-! Safe programs of a small machine as safe programs of a large one. -/
namespace Program

variable {M N : Machine} {S T : Signature} {α ε ε' : Type}

/-- Where each operation that the program may issue keeps the contract, so does the program. -/
theorem Safe.of_only {C : Contract M} {P : M.Op → Prop} {p : Prog M.toSignature α} (h : p.Only P)
    (keeps : ∀ s o c, P o → C.valid s → C.allowed s o c → C.valid (M.exec o c s).2 ∧ C.guar s (M.exec o c s).2)
    (s : M.State) : Safe C (fun _ _ => True) p s := by
  induction p generalizing s with
  | ret a => exact fun _ _ _ => trivial
  | call o next ih =>
    intro s₁ valid _ c ok
    obtain ⟨valid', guar⟩ := keeps s₁ o c h.1 valid ok
    exact ⟨valid', guar, ih _ (h.2 _) _⟩

/-- The contract `D` of the large machine seen on its part `view`: it asks no less than `C` gives. -/
structure Embedding.Carries (E : Embedding M.toSignature N.toSignature) (view : N.State → M.State) (C : Contract M)
    (D : Contract N) : Prop where
  valid : ∀ s, D.valid s → C.valid (view s)
  rely : ∀ s t, D.rely s t → C.rely (view s) (view t)
  exec : ∀ s o c, D.valid s → D.allowed s (E.op o) c → ∃ c', C.allowed (view s) o c' ∧
    E.reply o (N.exec (E.op o) c s).1 = (M.exec o c' (view s)).1 ∧ view (N.exec (E.op o) c s).2 = (M.exec o c' (view s)).2 ∧
      (C.guar (view s) (M.exec o c' (view s)).2 → D.valid (N.exec (E.op o) c s).2 ∧ D.guar s (N.exec (E.op o) c s).2)

theorem Safe.embed {E : Embedding M.toSignature N.toSignature} {view : N.State → M.State} {C : Contract M}
    {D : Contract N} (carries : E.Carries view C D) {post : α → M.State → Prop} {p : Prog M.toSignature α} {s : N.State}
    (h : Safe C post p (view s)) : Safe D (fun a t => post a (view t)) (p.embed E) s := by
  induction p generalizing s with
  | ret a => exact fun t valid rely => h _ (carries.valid t valid) (carries.rely s t rely)
  | call o next ih =>
    intro t valid rely c ok
    obtain ⟨c', ok', reply, state, keeps⟩ := carries.exec t o c valid ok
    obtain ⟨-, guar, rest⟩ := h _ (carries.valid t valid) (carries.rely s t rely) c' ok'
    obtain ⟨valid', guar'⟩ := keeps guar
    refine ⟨valid', guar', ?_⟩
    change Safe D _ ((next (E.reply o (N.exec (E.op o) c t).1)).embed E) _
    rw [reply]
    exact ih _ (state ▸ rest)

end Program
