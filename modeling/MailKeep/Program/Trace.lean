import Mathlib.Data.List.Basic

/-! Histories, newest event first, and what holds of each event against the events before it. -/
namespace Program
variable {ε : Type} {P Q : ε → List ε → Prop} {log : List ε} {e : ε}

/-- Each event of the history stands in `P` to the events before it. -/
def Always (P : ε → List ε → Prop) (log : List ε) : Prop :=
  ∀ later e earlier, log = later ++ e :: earlier → P e earlier

theorem always_nil : Always P ([] : List ε) := by
  intro later e earlier h
  cases later <;> cases h

theorem always_cons : Always P (e :: log) ↔ P e log ∧ Always P log := by
  constructor
  · intro h
    exact ⟨h [] e log rfl, fun later e' earlier hl => h (e :: later) e' earlier (by rw [hl]; rfl)⟩
  · rintro ⟨he, h⟩ later e' earlier hl
    cases later with
    | nil =>
      cases hl
      exact he
    | cons x later =>
      cases hl
      exact h later e' earlier rfl

theorem Always.push (h : Always P log) (he : P e log) : Always P (e :: log) := always_cons.mpr ⟨he, h⟩

end Program
