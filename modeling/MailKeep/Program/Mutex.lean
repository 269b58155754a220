import Mathlib.Logic.Function.Basic

/-! A lock and what it protects: an invariant while it is free, and while it is held what the phase of its holder says. -/
namespace Program

structure Mutex (S P : Type) where
  locked : S → Bool
  resting : S → Prop
  inside : P → S → Prop

namespace Mutex
variable {S P ι : Type} {m : Mutex S P}

/-- The lock is free and nobody is inside, or its holder is alone inside. -/
inductive Guards (m : Mutex S P) (s : S) (phase : ι → Option P) : Prop
  | free (unlocked : m.locked s = false) (outside : ∀ i, phase i = none) (rest : m.resting s)
  | held (i : ι) (p : P) (locked : m.locked s = true) (here : phase i = some p) (alone : ∀ j, j ≠ i → phase j = none)
      (holds : m.inside p s)

namespace Guards
variable {s t : S} {phase : ι → Option P} {i : ι} {p q : P}

theorem resting (h : m.Guards s phase) (unlocked : m.locked s = false) : m.resting s := by
  cases h with
  | free _ _ rest => exact rest
  | held i p locked => exact absurd locked (unlocked ▸ Bool.false_ne_true)

/-- Who is inside holds the lock, alone. -/
theorem inside (h : m.Guards s phase) (here : phase i = some p) :
    m.locked s = true ∧ (∀ j, j ≠ i → phase j = none) ∧ m.inside p s := by
  cases h with
  | free _ outside _ =>
    rw [outside i] at here
    cases here
  | held j q locked there alone holds =>
    by_cases same : i = j
    · subst same
      cases there.symm.trans here
      exact ⟨locked, alone, holds⟩
    · rw [alone i same] at here
      cases here

/-- What leaves the lock and every phase alone has to keep what they say. -/
theorem frame (h : m.Guards s phase) (same : m.locked t = m.locked s) (rest : m.resting s → m.resting t)
    (holds : ∀ p, m.inside p s → m.inside p t) : m.Guards t phase := by
  cases h with
  | free unlocked outside resting => exact .free (same.trans unlocked) outside (rest resting)
  | held i p locked here alone inside => exact .held i p (same.trans locked) here alone (holds p inside)

variable [DecidableEq ι]

theorem outside_update (outside : ∀ j, j ≠ i → phase j = none) (x : Option P) (j : ι) (apart : j ≠ i) :
    Function.update phase i x j = none := by
  rw [Function.update_of_ne apart]
  exact outside j apart

theorem enter (h : m.Guards s phase) (unlocked : m.locked s = false) (locked : m.locked t = true)
    (holds : m.resting s → m.inside p t) : m.Guards t (Function.update phase i (some p)) := by
  cases h with
  | free _ outside rest =>
    exact .held i p locked (Function.update_self ..) (outside_update (fun j _ => outside j) _) (holds rest)
  | held j q held => exact absurd held (unlocked ▸ Bool.false_ne_true)

theorem move (h : m.Guards s phase) (here : phase i = some p) (same : m.locked t = m.locked s)
    (holds : m.inside p s → m.inside q t) : m.Guards t (Function.update phase i (some q)) := by
  obtain ⟨locked, alone, inside⟩ := h.inside here
  exact .held i q (same.trans locked) (Function.update_self ..) (outside_update alone _) (holds inside)

theorem leave (h : m.Guards s phase) (here : phase i = some p) (unlocked : m.locked t = false)
    (rest : m.inside p s → m.resting t) : m.Guards t (Function.update phase i none) := by
  obtain ⟨-, alone, inside⟩ := h.inside here
  refine .free unlocked (fun j => ?_) (rest inside)
  by_cases same : j = i
  · rw [same, Function.update_self]
  · exact outside_update alone _ j same

end Guards
end Mutex
end Program
