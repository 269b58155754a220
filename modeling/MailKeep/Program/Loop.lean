import MailKeep.Program.Safe

/-! Endless loops: rounds of a finite program, each starting from what the last one returned. -/
namespace Program
open Relation

variable {M : Machine} {σ : Type}

/-- One operation of the running round, or the start of the next one. -/
inductive LoopStep (allowed : M.Allowed) (round : σ → Prog M.toSignature (Option σ)) :
    Prog M.toSignature (Option σ) × M.State → Prog M.toSignature (Option σ) × M.State → Prop
  | op {x y} (h : Step allowed x y) : LoopStep allowed round x y
  | again (a : σ) (s : M.State) : LoopStep allowed round (.ret (some a), s) (round a, s)

/-- Every prefix of a run of the loop, cut off after any operation. -/
abbrev LoopReaches (allowed : M.Allowed) (round : σ → Prog M.toSignature (Option σ)) :
    Prog M.toSignature (Option σ) × M.State → Prog M.toSignature (Option σ) × M.State → Prop :=
  ReflTransGen (LoopStep allowed round)

theorem Reaches.loop {allowed : M.Allowed} {round : σ → Prog M.toSignature (Option σ)}
    {x y : Prog M.toSignature (Option σ) × M.State} (h : Reaches allowed x y) : LoopReaches allowed round x y :=
  h.lift id fun _ _ => .op

variable {allowed : M.Allowed} {round : σ → Prog M.toSignature (Option σ)} {valid : M.State → Prop}
  {guar : M.State → M.State → Prop} {inv : σ → M.State → Prop}

/-- `inv` holds between the rounds. -/
def Between (inv : σ → M.State → Prop) (r : Option σ) (s : M.State) : Prop := ∀ a, r = some a → inv a s

/-- Where each round is safe and keeps the loop invariant, the loop is safe forever, and the
guarantee of its operations holds between any two points of a run. -/
theorem Safe.loop (refl : ∀ s, guar s s) (trans : ∀ {a b c}, guar a b → guar b c → guar a c)
    (body : ∀ a s, valid s → inv a s → Safe (.alone allowed valid guar) (Between inv) (round a) s)
    {x y : Prog M.toSignature (Option σ) × M.State} (hv : valid x.2)
    (hx : Safe (.alone allowed valid guar) (Between inv) x.1 x.2) (hr : LoopReaches allowed round x y) :
    valid y.2 ∧ Safe (.alone allowed valid guar) (Between inv) y.1 y.2 ∧ guar x.2 y.2 := by
  induction hr with
  | refl => exact ⟨hv, hx, refl _⟩
  | tail _ hs ih =>
    obtain ⟨hv', hs', hg⟩ := ih
    cases hs with
    | op h =>
      cases h with
      | call c ok =>
        obtain ⟨h1, h2, h3⟩ := hs' _ hv' rfl c ok
        exact ⟨h1, h3, trans hg h2⟩
    | again a s => exact ⟨hv', body a _ hv' (hs' _ hv' rfl a rfl), hg⟩

end Program
