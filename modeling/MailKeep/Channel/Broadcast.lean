import Mathlib.Data.List.Basic

/-! A bounded broadcast channel: every receiver reads every value sent since it subscribed, unless it lags too far
behind; then it skips to the oldest value that is kept and is told how many it has missed. -/
namespace Channel

/-- The values sent so far, oldest first, and whether the senders are gone. -/
structure Broadcast (α : Type) where
  sent : List α
  closed : Bool

inductive Received (α : Type)
  | value (a : α)
  | lagged (missed : Nat)
  | closed

namespace Broadcast
variable {α : Type} {capacity next next' : Nat} {b : Broadcast α} {r : Received α}

def empty : Broadcast α := ⟨[], false⟩

def send (b : Broadcast α) (a : α) : Broadcast α := { b with sent := b.sent ++ [a] }

/-- What the receiver that stands at `next` gets, and where it stands then; `none` while it must wait. -/
def recv (capacity : Nat) (b : Broadcast α) (next : Nat) : Option (Received α × Nat) :=
  if next + capacity < b.sent.length then
    some (.lagged (b.sent.length - capacity - next), b.sent.length - capacity)
  else match b.sent[next]? with
    | some a => some (.value a, next + 1)
    | none => if b.closed then some (.closed, next) else none

/-- A receiver moves forward, and it is told of the end only when nothing is left. -/
theorem recv_moves (within : next ≤ b.sent.length) (h : b.recv capacity next = some (r, next')) :
    (next < next' ∧ next' ≤ b.sent.length ∧ r ≠ .closed) ∨
      (next' = next ∧ next = b.sent.length ∧ b.closed = true ∧ r = .closed) := by
  unfold recv at h
  split at h
  · cases h
    exact .inl ⟨by omega, by omega, fun he => by cases he⟩
  · split at h
    · rename_i a found
      cases h
      have := (List.getElem?_eq_some_iff.mp found).1
      exact .inl ⟨by omega, by omega, fun he => by cases he⟩
    · rename_i missing
      split at h
      · rename_i closed
        cases h
        have := List.getElem?_eq_none_iff.mp missing
        exact .inr ⟨rfl, by omega, closed, rfl⟩
      · cases h

/-- A receiver waits exactly when it has everything and more may come. -/
theorem recv_eq_none (within : next ≤ b.sent.length) :
    b.recv capacity next = none ↔ next = b.sent.length ∧ b.closed = false := by
  unfold recv
  split
  · rename_i behind
    constructor
    · intro h
      cases h
    · rintro ⟨rfl, -⟩
      omega
  · split
    · rename_i a found
      have := (List.getElem?_eq_some_iff.mp found).1
      constructor
      · intro h
        cases h
      · rintro ⟨rfl, -⟩
        omega
    · rename_i missing
      have := List.getElem?_eq_none_iff.mp missing
      cases b.closed with
      | true => simp
      | false => simp; omega

end Broadcast
end Channel
