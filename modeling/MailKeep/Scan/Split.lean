import Mathlib.Data.List.Infix

/-! Splitting a sequence at a separator: its occurrences are found from the left and do not overlap. -/
namespace Scan

variable {α : Type*} [DecidableEq α]

/-- The pieces between the separators, after so many elements that still belong to the last one. -/
def splitFrom (sep : List α) : Nat → List α → List (List α)
  | _, [] => [[]]
  | skip + 1, _ :: cs => splitFrom sep skip cs
  | 0, c :: cs =>
    if sep.isPrefixOf (c :: cs) then [] :: splitFrom sep (sep.length - 1) cs
    else (splitFrom sep 0 cs).modifyHead (c :: ·)

def split (sep hay : List α) : List (List α) := splitFrom sep 0 hay

variable {sep hay : List α}

theorem splitFrom_eq (skip : Nat) : splitFrom sep skip hay = split sep (hay.drop skip) := by
  induction hay generalizing skip with
  | nil =>
    rw [List.drop_nil, splitFrom]
    rfl
  | cons c cs ih =>
    cases skip with
    | zero => rfl
    | succ skip => exact ih skip

@[simp] theorem split_nil : split sep [] = [[]] := rfl

theorem split_sep (some : sep ≠ []) : split sep (sep ++ hay) = [] :: split sep hay := by
  obtain ⟨c, cs, rfl⟩ := List.exists_cons_of_ne_nil some
  have here : (c :: cs).isPrefixOf (c :: (cs ++ hay)) = true :=
    List.isPrefixOf_iff_prefix.mpr (List.prefix_append (c :: cs) hay)
  rw [List.cons_append, split, splitFrom, if_pos here, splitFrom_eq]
  simp

theorem split_cons {c : α} {cs : List α} (none : ¬ sep <+: c :: cs) :
    split sep (c :: cs) = (split sep cs).modifyHead (c :: ·) := by
  rw [split, splitFrom, if_neg fun here => none (List.isPrefixOf_iff_prefix.mp here)]
  rfl

/-- A sequence is empty, begins with the separator, or begins with an element at which no separator stands. -/
theorem split_induction {motive : List α → Prop} (some : sep ≠ []) (nil : motive [])
    (at_sep : ∀ hay, motive hay → motive (sep ++ hay))
    (at_cons : ∀ c cs, ¬ sep <+: c :: cs → motive cs → motive (c :: cs)) (hay : List α) : motive hay := by
  have positive : 0 < sep.length := List.length_pos_iff.mpr some
  induction n : hay.length using Nat.strongRecOn generalizing hay with
  | ind n ih =>
    subst n
    cases hay with
    | nil => exact nil
    | cons c cs =>
      by_cases here : sep <+: c :: cs
      · obtain ⟨rest, same⟩ := here
        rw [← same]
        have shorter : rest.length < (c :: cs).length := by
          rw [← same, List.length_append]
          omega
        exact at_sep rest (ih _ shorter rest rfl)
      · exact at_cons c cs here (ih _ (Nat.lt_succ_self _) cs rfl)

omit [DecidableEq α] in
theorem intercalate_concat {segs : List (List α)} {last : List α} (more : segs ≠ []) :
    sep.intercalate (segs ++ [last]) = sep.intercalate segs ++ sep ++ last := by
  induction segs with
  | nil => exact absurd rfl more
  | cons s segs ih =>
    cases segs with
    | nil => simp
    | cons t segs =>
      have rest := ih (List.cons_ne_nil t segs)
      change sep.intercalate (s :: t :: (segs ++ [last])) = _
      rw [List.intercalate_cons_cons, List.intercalate_cons_cons]
      change s ++ sep ++ sep.intercalate (t :: segs ++ [last]) = _
      rw [rest]
      simp only [List.append_assoc]

theorem split_ne_nil (some : sep ≠ []) (hay : List α) : split sep hay ≠ [] := by
  induction hay using split_induction some with
  | nil => simp
  | at_sep hay _ => simp [split_sep some]
  | at_cons c cs none ih =>
    rw [split_cons none]
    simpa using ih

/-- The pieces put together again. -/
theorem intercalate_split (some : sep ≠ []) (hay : List α) : sep.intercalate (split sep hay) = hay := by
  induction hay using split_induction some with
  | nil => rfl
  | at_sep hay ih =>
    rw [split_sep some, List.intercalate_cons_of_ne_nil (split_ne_nil some hay), ih]
    rfl
  | at_cons c cs none ih =>
    rw [split_cons none]
    obtain ⟨s, segs, same⟩ := List.exists_cons_of_ne_nil (split_ne_nil some cs)
    rw [same] at ih ⊢
    rw [List.modifyHead_cons, List.intercalate_cons_cons_left, ih]

theorem split_head_prefix (some : sep ≠ []) {hay s : List α} {segs : List (List α)}
    (h : split sep hay = s :: segs) :
    s <+: hay := by
  have whole := intercalate_split some hay
  rw [h] at whole
  cases segs with
  | nil => rw [← whole, List.intercalate_singleton]
  | cons t segs => exact whole ▸ ⟨sep ++ sep.intercalate (t :: segs), by simp⟩

/-- What stands before the last separator is split as it is in the whole. -/
theorem split_before_last (some : sep ≠ []) {hay : List α} {segs : List (List α)} {last : List α}
    (whole : split sep hay = segs ++ [last]) (more : segs ≠ []) : split sep (sep.intercalate segs) = segs := by
  induction hay using split_induction some generalizing segs with
  | nil =>
    have length := congrArg List.length whole
    have positive := List.length_pos_iff.mpr more
    simp only [split_nil, List.length_append, List.length_singleton] at length
    omega
  | at_sep hay ih =>
    rw [split_sep some] at whole
    obtain ⟨first, rest, rfl⟩ := List.exists_cons_of_ne_nil more
    obtain ⟨rfl, tail⟩ := List.cons.inj whole
    cases rest with
    | nil => simp
    | cons s segs =>
      rw [List.intercalate_cons_cons, List.nil_append, split_sep some, ih tail (List.cons_ne_nil _ _)]
  | at_cons c cs none ih =>
    rw [split_cons none] at whole
    obtain ⟨s, rest, same⟩ := List.exists_cons_of_ne_nil (split_ne_nil some cs)
    obtain ⟨first, segs, rfl⟩ := List.exists_cons_of_ne_nil more
    rw [same, List.modifyHead_cons] at whole
    obtain ⟨rfl, rfl⟩ := List.cons.inj whole
    have before := ih same (List.cons_ne_nil s segs)
    have put_together : sep.intercalate (s :: segs) <+: cs := by
      have all := intercalate_split some cs
      rw [same] at all
      refine ⟨sep ++ last, ?_⟩
      rw [← List.append_assoc]
      exact (intercalate_concat (List.cons_ne_nil s segs)).symm.trans all
    have absent : ¬ sep <+: c :: sep.intercalate (s :: segs) := fun here =>
      none (here.trans (List.cons_prefix_cons.mpr ⟨rfl, put_together⟩))
    rw [List.intercalate_cons_cons_left, split_cons absent, before]
    rfl

/-- No piece has the separator in it. -/
theorem not_infix_of_mem_split (some : sep ≠ []) {hay s : List α} (mem : s ∈ split sep hay) : ¬ sep <:+: s := by
  induction hay using split_induction some generalizing s with
  | nil =>
    rw [split_nil] at mem
    rw [List.mem_singleton.mp mem]
    exact fun inside => some (List.infix_nil.mp inside)
  | at_sep hay ih =>
    rw [split_sep some] at mem
    rcases List.mem_cons.mp mem with rfl | mem
    · exact fun inside => some (List.infix_nil.mp inside)
    · exact ih mem
  | at_cons c cs none ih =>
    obtain ⟨t, segs, same⟩ := List.exists_cons_of_ne_nil (split_ne_nil some cs)
    rw [split_cons none, same, List.modifyHead_cons] at mem
    rw [same] at ih
    rcases List.mem_cons.mp mem with rfl | mem
    · intro inside
      rcases List.infix_cons_iff.mp inside with first | later
      · exact none (first.trans (List.cons_prefix_cons.mpr ⟨rfl, split_head_prefix some same⟩))
      · exact ih List.mem_cons_self later
    · exact ih (List.mem_cons_of_mem _ mem)

end Scan
