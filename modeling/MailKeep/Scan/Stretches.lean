import Mathlib.Data.List.Range
import Mathlib.Data.List.Basic

/-! The maximal stretches of positions between gaps, and the blocks of a concatenation. -/
namespace Scan

variable {gap keep : Nat → Bool} {n a b p q : Nat}

/-- A stretch without a gap that reaches up to `b` and no farther to the left than its beginning. -/
structure Begun (gap : Nat → Bool) (a b : Nat) : Prop where
  nonempty : a < b
  free : ∀ p, a ≤ p → p < b → gap p = false
  left : ∀ p, p + 1 = a → gap p = true

/-- One that cannot be prolonged below `n` either. -/
structure Stretch (gap : Nat → Bool) (n a b : Nat) : Prop extends Begun gap a b where
  within : b ≤ n
  right : b < n → gap b = true

/-- Where the stretch begins that reaches up to `n`, if there is one. -/
def opened (gap : Nat → Bool) : Nat → Option Nat
  | 0 => none
  | n + 1 => if gap n then none else some ((opened gap n).getD n)

/-- The stretches that a gap below `n` has ended. -/
def closed (gap : Nat → Bool) : Nat → List (Nat × Nat)
  | 0 => []
  | n + 1 => closed gap n ++ if gap n then ((opened gap n).map (·, n)).toList else []

/-- All stretches below `n`, in order. -/
def stretches (gap : Nat → Bool) (n : Nat) : List (Nat × Nat) := closed gap n ++ ((opened gap n).map (·, n)).toList

def interval (s : Nat × Nat) : List Nat := List.range' s.1 (s.2 - s.1)

@[simp] theorem mem_interval {s : Nat × Nat} : p ∈ interval s ↔ s.1 ≤ p ∧ p < s.2 := by
  rw [interval, List.mem_range'_1]
  omega

theorem interval_succ (h : a ≤ n) : interval (a, n + 1) = interval (a, n) ++ [n] := by
  rw [interval, interval, Nat.succ_sub h, List.range'_1_concat]
  simp [h]

theorem opened_of_gap (h : gap n = true) : opened gap (n + 1) = none := if_pos h

theorem opened_of_free (h : gap n = false) : opened gap (n + 1) = some ((opened gap n).getD n) :=
  if_neg (Bool.not_eq_true _ ▸ h)

theorem Begun.succ (h : Begun gap a n) (free : gap n = false) : Begun gap a (n + 1) where
  nonempty := Nat.lt_succ_of_lt h.nonempty
  free p hp hn := by
    rcases Nat.lt_succ_iff_lt_or_eq.mp hn with hn | rfl
    · exact h.free p hp hn
    · exact free
  left := h.left

theorem Begun.of_succ (h : Begun gap a (n + 1)) (before : a < n) : Begun gap a n :=
  ⟨before, fun p hp hn => h.free p hp (Nat.lt_succ_of_lt hn), h.left⟩

theorem Begun.free_last (h : Begun gap a (n + 1)) : gap n = false :=
  h.free n (Nat.lt_succ_iff.mp h.nonempty) (Nat.lt_succ_self n)

/-- What has begun is told by the gaps alone. -/
theorem opened_eq_some : opened gap n = some a ↔ Begun gap a n := by
  induction n generalizing a with
  | zero => exact iff_of_false (by simp [opened]) fun h => absurd h.nonempty (Nat.not_lt_zero a)
  | succ n ih =>
    cases hg : gap n with
    | true =>
      rw [opened_of_gap hg]
      apply iff_of_false (by simp)
      intro h
      exact Bool.false_ne_true (h.free_last.symm.trans hg)
    | false =>
      rw [opened_of_free hg, Option.some.injEq]
      constructor
      · rintro rfl
        cases ho : opened gap n with
        | some a => exact (ih.mp ho).succ hg
        | none =>
          refine ⟨Nat.lt_succ_self n, fun p hp hn => ?_, fun p hp => ?_⟩
          · rwa [Nat.le_antisymm (Nat.lt_succ_iff.mp hn) hp]
          · subst hp
            by_contra free
            rw [opened_of_free (Bool.not_eq_true _ ▸ free)] at ho
            cases ho
      · intro h
        rcases Nat.lt_succ_iff_lt_or_eq.mp h.nonempty with before | rfl
        · rw [ih.mpr (h.of_succ before)]
          rfl
        · cases ho : opened gap a with
          | none => rfl
          | some a' =>
            have begun := ih.mp ho
            obtain ⟨p, rfl⟩ := Nat.exists_eq_add_one.mpr (Nat.zero_lt_of_lt begun.nonempty)
            exact absurd (h.left p rfl) (by rw [begun.free_last]; decide)

theorem mem_closed : (a, b) ∈ closed gap n ↔ Begun gap a b ∧ b < n ∧ gap b = true := by
  induction n with
  | zero => simp [closed]
  | succ n ih =>
    rw [closed, List.mem_append, ih]
    cases hg : gap n with
    | true =>
      rw [if_pos rfl, Option.mem_toList, Option.map_eq_some_iff]
      constructor
      · rintro (⟨begun, hb, gap_b⟩ | ⟨a', ho, he⟩)
        · exact ⟨begun, Nat.lt_succ_of_lt hb, gap_b⟩
        · cases he
          exact ⟨opened_eq_some.mp ho, Nat.lt_succ_self _, hg⟩
      · rintro ⟨begun, hb, gap_b⟩
        rcases Nat.lt_succ_iff_lt_or_eq.mp hb with hb | rfl
        · exact .inl ⟨begun, hb, gap_b⟩
        · exact .inr ⟨a, opened_eq_some.mpr begun, rfl⟩
    | false =>
      simp only [Bool.false_eq_true, if_false, List.not_mem_nil, or_false]
      apply and_congr_right
      intro _
      constructor
      · exact fun ⟨hb, gap_b⟩ => ⟨Nat.lt_succ_of_lt hb, gap_b⟩
      · rintro ⟨hb, gap_b⟩
        refine ⟨Nat.lt_of_le_of_ne (Nat.lt_succ_iff.mp hb) ?_, gap_b⟩
        rintro rfl
        exact Bool.false_ne_true (hg.symm.trans gap_b)

theorem mem_stretches : (a, b) ∈ stretches gap n ↔ Stretch gap n a b := by
  rw [stretches, List.mem_append, mem_closed, Option.mem_toList, Option.map_eq_some_iff]
  constructor
  · rintro (⟨begun, hb, gap_b⟩ | ⟨a', ho, he⟩)
    · exact ⟨begun, hb.le, fun _ => gap_b⟩
    · cases he
      exact ⟨opened_eq_some.mp ho, le_rfl, fun h => absurd h (lt_irrefl _)⟩
  · intro h
    rcases h.within.lt_or_eq with hb | rfl
    · exact .inl ⟨h.toBegun, hb, h.right hb⟩
    · exact .inr ⟨a, opened_eq_some.mpr h.toBegun, rfl⟩

/-- A gap lies between two stretches. -/
theorem stretches_pairwise (gap : Nat → Bool) (n : Nat) : (stretches gap n).Pairwise fun s t => s.2 < t.1 := by
  have after : ∀ {m s t}, s ∈ closed gap m → t ∈ ((opened gap m).map (·, m)).toList → s.2 < t.1 := by
    rintro m ⟨a, b⟩ t hs ht
    rw [Option.mem_toList, Option.map_eq_some_iff] at ht
    obtain ⟨a', ho, rfl⟩ := ht
    obtain ⟨-, hb, gap_b⟩ := mem_closed.mp hs
    by_contra before
    have free := (opened_eq_some.mp ho).free b (not_lt.mp before) hb
    exact Bool.false_ne_true (free.symm.trans gap_b)
  have one : ∀ (o : Option Nat) (m : Nat), ((o.map (·, m)).toList).Pairwise fun s t : Nat × Nat => s.2 < t.1 := by
    intro o m
    cases o <;> simp
  have inner : ∀ m, (closed gap m).Pairwise fun s t => s.2 < t.1 := by
    intro m
    induction m with
    | zero => exact List.Pairwise.nil
    | succ m ih =>
      rw [closed]
      split
      · exact List.pairwise_append.mpr ⟨ih, one _ m, fun s hs t ht => after hs ht⟩
      · rwa [List.append_nil]
  exact List.pairwise_append.mpr ⟨inner n, one _ n, fun s hs t ht => after hs ht⟩

/-- Between them the stretches have every position that is no gap, in order. -/
theorem flatMap_interval (gap : Nat → Bool) (n : Nat) :
    (stretches gap n).flatMap interval = (List.range n).filter fun p => !gap p := by
  induction n with
  | zero => rfl
  | succ n ih =>
    rw [List.range_succ, List.filter_append, ← ih, stretches, stretches, closed]
    cases hg : gap n with
    | true =>
      rw [opened_of_gap hg]
      simp [hg]
    | false =>
      rw [opened_of_free hg]
      cases ho : opened gap n with
      | none => simp [hg, interval]
      | some a =>
        have begun := opened_eq_some.mp ho
        simp [hg, interval_succ begun.nonempty.le]

section
variable {α β : Type} {i j : Nat}

/-- Which block has the `i`-th element of the concatenation. -/
def blockOf : List (List α) → Nat → Nat
  | [], _ => 0
  | block :: blocks, i => if i < block.length then 0 else blockOf blocks (i - block.length) + 1

theorem blockOf_map (f : α → β) (blocks : List (List α)) (i : Nat) :
    blockOf (blocks.map (List.map f)) i = blockOf blocks i := by
  induction blocks generalizing i with
  | nil => rfl
  | cons block blocks ih => rw [List.map_cons, blockOf, blockOf, List.length_map, ih]

theorem mem_blockOf {blocks : List (List α)} {a : α} (h : blocks.flatten[i]? = some a) :
    ∃ block, blocks[blockOf blocks i]? = some block ∧ a ∈ block := by
  induction blocks generalizing i with
  | nil => cases h
  | cons block blocks ih =>
    rw [List.flatten_cons] at h
    rw [blockOf]
    split
    · rename_i here
      rw [List.getElem?_append_left here] at h
      exact ⟨block, rfl, List.mem_of_getElem? h⟩
    · rename_i later
      rw [List.getElem?_append_right (not_lt.mp later)] at h
      exact ih h

end

/-- The positions of a stretch that are kept. -/
def keptWithin (keep : Nat → Bool) (s : Nat × Nat) : List Nat := (interval s).filter keep

/-- All positions that are kept and are no gap. -/
def keptBelow (gap keep : Nat → Bool) (n : Nat) : List Nat := (List.range n).filter fun p => !gap p && keep p

theorem flatten_keptWithin (gap keep : Nat → Bool) (n : Nat) :
    ((stretches gap n).map (keptWithin keep)).flatten = keptBelow gap keep n := by
  have split : keptBelow gap keep n = ((List.range n).filter fun p => !gap p).filter keep := by
    rw [keptBelow, List.filter_filter]
    exact List.filter_congr fun p _ => Bool.and_comm _ _
  rw [split, ← flatMap_interval, List.filter_flatMap]
  rfl

theorem keptBelow_pairwise (gap keep : Nat → Bool) (n : Nat) : (keptBelow gap keep n).Pairwise (· < ·) :=
  List.pairwise_lt_range.filter _

/-- Two positions that are kept are in one block exactly if no gap lies between them. -/
theorem blockOf_eq_iff {i j : Nat} (hij : i < j) (hi : (keptBelow gap keep n)[i]? = some p)
    (hj : (keptBelow gap keep n)[j]? = some q) :
    blockOf ((stretches gap n).map (keptWithin keep)) i = blockOf ((stretches gap n).map (keptWithin keep)) j ↔
      ∀ r, p < r → r < q → gap r = false := by
  have block : ∀ {k r}, (keptBelow gap keep n)[k]? = some r →
      ∃ s, (stretches gap n)[blockOf ((stretches gap n).map (keptWithin keep)) k]? = some s ∧
        Stretch gap n s.1 s.2 ∧
        s.1 ≤ r ∧ r < s.2 := by
    intro k r hk
    rw [← flatten_keptWithin] at hk
    obtain ⟨ps, hps, mem⟩ := mem_blockOf hk
    rw [List.getElem?_map, Option.map_eq_some_iff] at hps
    obtain ⟨s, hs, rfl⟩ := hps
    exact ⟨s, hs, mem_stretches.mp (List.mem_of_getElem? hs), mem_interval.mp (List.mem_filter.mp mem).1⟩
  have ascends : p < q := by
    obtain ⟨li, rfl⟩ := List.getElem?_eq_some_iff.mp hi
    obtain ⟨lj, rfl⟩ := List.getElem?_eq_some_iff.mp hj
    exact List.pairwise_iff_getElem.mp (keptBelow_pairwise gap keep n) i j li lj hij
  obtain ⟨s, hs, stretch_s, ps⟩ := block hi
  obtain ⟨t, ht, stretch_t, qt⟩ := block hj
  have apart : ∀ {k l : Nat} {u v : Nat × Nat}, (stretches gap n)[k]? = some u →
      (stretches gap n)[l]? = some v → k < l → u.2 < v.1 := by
    intro k l u v hu hv hkl
    obtain ⟨lk, rfl⟩ := List.getElem?_eq_some_iff.mp hu
    obtain ⟨ll, rfl⟩ := List.getElem?_eq_some_iff.mp hv
    exact List.pairwise_iff_getElem.mp (stretches_pairwise gap n) k l lk ll hkl
  constructor
  · intro same r hpr hrq
    rw [same, ht, Option.some.injEq] at hs
    subst hs
    exact stretch_t.free r (ps.1.trans hpr.le) (hrq.trans qt.2)
  · intro free
    rcases Nat.lt_trichotomy (blockOf ((stretches gap n).map (keptWithin keep)) i)
      (blockOf ((stretches gap n).map (keptWithin keep)) j) with before | same | after
    · have between := apart hs ht before
      have ended := stretch_s.right (by have := stretch_t.within; have := stretch_t.nonempty; omega)
      rw [free s.2 ps.2 (between.trans_le qt.1)] at ended
      cases ended
    · exact same
    · have := apart ht hs after
      omega

end Scan
