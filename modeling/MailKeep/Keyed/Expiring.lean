import Mathlib.Logic.Function.Basic
import Mathlib.Data.List.Induction

/-! A map that events write one key of at a time, each after it has purged what it does not let live. -/
namespace Keyed

variable {κ ν ε : Type}

/-- What an event does: the key it writes, the entry it leaves there, if any, and the entries it lets live. -/
structure Effect (κ ν ε : Type) where
  key : ε → κ
  entry : ε → Option ν
  live : ε → ν → Bool

namespace Effect
variable (f : Effect κ ν ε)

/-- The last event on the key has left the entry. -/
def Pending (events : List ε) (k : κ) (v : ν) (before : List ε) (e : ε) (after : List ε) : Prop :=
  events = before ++ e :: after ∧ f.key e = k ∧ f.entry e = some v ∧ ∀ x ∈ after, f.key x ≠ k

variable {f} {events before before' after after' : List ε} {e e' : ε} {k : κ} {v v' : ν}

/-- An event that is not the last stands before it. -/
theorem Pending.mem_of_prefix {middle : List ε} (h : f.Pending events k v before e after)
    (later : events = (before ++ e :: middle) ++ e' :: after') : f.key e' ≠ k := by
  have same : after = middle ++ e' :: after' := by
    rw [h.1, List.append_assoc, List.append_cancel_left_eq] at later
    exact (List.cons.inj later).2
  exact h.2.2.2 e' (same ▸ List.mem_append_right _ List.mem_cons_self)

/-- Only one event is the last on its key. -/
theorem Pending.unique (h : f.Pending events k v before e after) (h' : f.Pending events k v' before' e' after') :
    e = e' ∧ after = after' := by
  rcases List.append_eq_append_iff.mp (h.1.symm.trans h'.1) with ⟨middle, hb, ha⟩ | ⟨middle, hb, ha⟩
  · cases middle with
    | nil => exact List.cons.inj ha
    | cons x middle =>
      rw [List.cons_append] at ha
      obtain ⟨rfl, -⟩ := List.cons.inj ha
      exact absurd h'.2.1 (h.mem_of_prefix (h'.1.trans (by rw [hb])))
  · cases middle with
    | nil => exact (List.cons.inj ha).imp Eq.symm Eq.symm
    | cons x middle =>
      rw [List.cons_append] at ha
      obtain ⟨rfl, -⟩ := List.cons.inj ha
      exact absurd h.2.1 (h'.mem_of_prefix (h.1.trans (by rw [hb])))

theorem pending_concat : f.Pending (events ++ [e']) k v before e after ↔
    (e = e' ∧ before = events ∧ after = [] ∧ f.key e' = k ∧ f.entry e' = some v) ∨
      ∃ older, after = older ++ [e'] ∧ f.key e' ≠ k ∧ f.Pending events k v before e older := by
  rcases List.eq_nil_or_concat after with rfl | ⟨older, x, rfl⟩
  · constructor
    · rintro ⟨he, hk, hv, -⟩
      obtain ⟨rfl, last⟩ := List.append_inj' he rfl
      obtain rfl := List.singleton_inj.mp last
      exact .inl ⟨rfl, rfl, rfl, hk, hv⟩
    · rintro (⟨rfl, rfl, -, hk, hv⟩ | ⟨older, ha, -⟩)
      · exact ⟨rfl, hk, hv, fun x hx => absurd hx List.not_mem_nil⟩
      · exact absurd ha.symm (List.append_ne_nil_of_right_ne_nil _ (List.cons_ne_nil _ _))
  · constructor
    · rintro ⟨he, hk, hv, last⟩
      rw [List.concat_eq_append, ← List.cons_append, ← List.append_assoc] at he
      obtain ⟨rfl, same⟩ := List.append_inj' he rfl
      obtain rfl := List.singleton_inj.mp same
      rw [List.concat_eq_append] at last ⊢
      exact .inr ⟨older, rfl, last _ (List.mem_append_right _ List.mem_cons_self), rfl, hk, hv,
        fun y hy => last y (List.mem_append_left _ hy)⟩
    · rw [List.concat_eq_append]
      rintro (⟨-, -, ha, -⟩ | ⟨older', ha, other, rfl, hk, hv, last⟩)
      · exact absurd ha (List.append_ne_nil_of_right_ne_nil _ (List.cons_ne_nil _ _))
      · obtain ⟨rfl, same⟩ := List.append_inj' ha rfl
        obtain rfl := List.singleton_inj.mp same
        refine ⟨by simp, hk, hv, fun y hy => ?_⟩
        rcases List.mem_append.mp hy with hy | hy
        · exact last y hy
        · rwa [List.mem_singleton.mp hy]

variable [DecidableEq κ]

def step (f : Effect κ ν ε) (m : κ → Option ν) (e : ε) :
    κ → Option ν := Function.update (fun k => (m k).filter (f.live e)) (f.key e) (f.entry e)

/-- The map after some events, from the empty one. -/
def replay (f : Effect κ ν ε) (events : List ε) : κ → Option ν := events.foldl f.step fun _ => none

theorem replay_concat : f.replay (events ++ [e]) = f.step (f.replay events) e := by
  rw [replay, List.foldl_append]
  rfl

/-- The map has what the last event on the key has left, unless an event since has purged it. -/
theorem replay_eq_some : f.replay events k = some v ↔
    ∃ before e after, f.Pending events k v before e after ∧ ∀ x ∈ after, f.live x v = true := by
  induction events using List.reverseRecOn generalizing v with
  | nil => simp [replay, Pending]
  | append_singleton events x ih =>
    rw [replay_concat, step, Function.update_apply]
    simp only [pending_concat]
    split
    · rename_i own
      constructor
      · exact fun hv => ⟨events, x, [], .inl ⟨rfl, rfl, rfl, own.symm, hv⟩, fun y hy => absurd hy List.not_mem_nil⟩
      · rintro ⟨before, e, after, ⟨-, -, -, -, hv⟩ | ⟨older, -, other, -⟩, -⟩
        · exact hv
        · exact absurd own.symm other
    · rename_i other
      rw [Option.filter_eq_some_iff, ih]
      constructor
      · rintro ⟨⟨before, e, older, pending, live⟩, now⟩
        refine ⟨before, e, older ++ [x], .inr ⟨older, rfl, Ne.symm other, pending⟩, fun y hy => ?_⟩
        rcases List.mem_append.mp hy with hy | hy
        · exact live y hy
        · rwa [List.mem_singleton.mp hy]
      · rintro ⟨before, e, after, ⟨-, -, -, own, -⟩ | ⟨older, rfl, -, pending⟩, live⟩
        · exact absurd own.symm other
        · exact ⟨⟨before, e, older, pending, fun y hy => live y (List.mem_append_left _ hy)⟩,
            live x (List.mem_append_right _ List.mem_cons_self)⟩

end Effect
end Keyed
