import Mathlib.Data.List.Infix

/-! Searching a sequence: the first occurrence of a run, and what follows the first of a given symbol. -/
namespace Scan

variable {α : Type*}

section Find
variable [DecidableEq α]

/-- The offset of the first occurrence of the needle. -/
def find (needle : List α) : List α → Option Nat
  | [] => if needle = [] then some 0 else none
  | c :: cs => if needle.isPrefixOf (c :: cs) then some 0 else (find needle cs).map (· + 1)

/-- What follows the first `mark`. -/
def after (mark : α) (hay : List α) : Option (List α) :=
  match hay.dropWhile (· ≠ mark) with
  | [] => none
  | _ :: rest => some rest

theorem find_of_prefix {needle hay : List α} (found : needle <+: hay) : find needle hay = some 0 := by
  cases hay with
  | nil => exact if_pos (List.prefix_nil.mp found)
  | cons c cs => exact if_pos (List.isPrefixOf_iff_prefix.mpr found)

/-- An occurrence bounds the first one. -/
theorem find_le_of_infix {needle front : List α} (found : needle <:+: front) (rest : List α) :
    ∃ e ≤ front.length, find needle (front ++ rest) = some e := by
  induction front with
  | nil => exact ⟨0, le_rfl, find_of_prefix (List.infix_nil.mp found ▸ List.nil_prefix)⟩
  | cons c front ih =>
    by_cases here : needle <+: c :: (front ++ rest)
    · exact ⟨0, Nat.zero_le _, find_of_prefix here⟩
    · rcases List.infix_cons_iff.mp found with first | later
      · exact absurd (first.trans (List.prefix_append (c :: front) rest)) here
      · obtain ⟨e, le, eq⟩ := ih later
        refine ⟨e + 1, Nat.succ_le_succ le, ?_⟩
        rw [List.cons_append, find, if_neg fun found => here (List.isPrefixOf_iff_prefix.mp found), eq]
        rfl

theorem after_append {mark : α} {front : List α} (free : mark ∉ front) (rest : List α) :
    after mark (front ++ mark :: rest) = some rest := by
  have whole : (front ++ mark :: rest).dropWhile (· ≠ mark) = mark :: rest := by
    rw [List.dropWhile_append_of_pos fun c mem => decide_eq_true (ne_of_mem_of_not_mem mem free)]
    exact List.dropWhile_cons_of_neg (by simp)
  rw [after, whole]

theorem after_length {mark : α} {hay rest : List α} (found : after mark hay = some rest) :
    rest.length < hay.length := by
  have shorter := (List.dropWhile_sublist (l := hay) (· ≠ mark)).length_le
  unfold after at found
  split at found
  · cases found
  · rename_i dropped
    cases found
    rw [dropped] at shorter
    exact shorter

end Find

/-- No occurrence of the needle begins in `front` when `rest` follows. -/
def Clear (needle : List α) : List α → List α → Prop
  | [], _ => True
  | c :: front, rest => ¬ needle <+: c :: (front ++ rest) ∧ Clear needle front rest

namespace Clear
variable {needle front middle rest : List α} {c : α}

theorem find_append [DecidableEq α] (clear : Clear needle front rest) :
    find needle (front ++ rest) = (find needle rest).map (front.length + ·) := by
  induction front with
  | nil => simp
  | cons d front ih =>
    rw [List.cons_append, find, if_neg fun found => clear.1 (List.isPrefixOf_iff_prefix.mp found), ih clear.2, Option.map_map]
    congr 1
    funext e
    simp only [Function.comp_apply, List.length_cons]
    omega

/-- A run without the needle's first symbol is clear. -/
theorem of_head {tail : List α} (free : c ∉ front) : Clear (c :: tail) front rest := by
  induction front with
  | nil => trivial
  | cons d front ih =>
    rw [List.mem_cons, not_or] at free
    exact ⟨fun found => free.1 (List.cons_prefix_cons.mp found).1, ih free.2⟩

end Clear

/-- What lies before a symbol foreign to the needle ends every occurrence begun before it. -/
theorem prefix_of_prefix_cut {needle front rest : List α} {c : α} (foreign : c ∉ needle)
    (found : needle <+: front ++ c :: rest) : needle <+: front := by
  induction front generalizing needle with
  | nil =>
    cases needle with
    | nil => exact List.nil_prefix
    | cons d needle =>
      rw [List.nil_append, List.cons_prefix_cons] at found
      exact absurd (by rw [found.1]; exact List.mem_cons_self) foreign
  | cons d front ih =>
    cases needle with
    | nil => exact List.nil_prefix
    | cons e needle =>
      rw [List.cons_append, List.cons_prefix_cons] at found
      rw [List.cons_prefix_cons]
      exact ⟨found.1, ih (fun mem => foreign (List.mem_cons_of_mem _ mem)) found.2⟩

namespace Clear
variable {needle front rest : List α} {c : α}

/-- A run without the needle is clear up to a symbol that is not in the needle. -/
theorem of_cut (foreign : c ∉ needle) (nonempty : needle ≠ []) (free : ¬ needle <:+: front) :
    Clear needle (front ++ [c]) rest := by
  induction front with
  | nil =>
    refine ⟨fun found => nonempty ?_, trivial⟩
    exact List.prefix_nil.mp (prefix_of_prefix_cut foreign (show needle <+: [] ++ c :: rest from found))
  | cons d front ih =>
    refine ⟨fun found => free ?_, ih fun inner => free (inner.trans (List.suffix_cons d front).isInfix)⟩
    have whole : needle <+: (d :: front) ++ c :: rest := by
      rw [List.append_cons]
      exact found
    exact (prefix_of_prefix_cut foreign whole).isInfix

/-- A run without the needle is clear if what follows begins with a symbol that only begins the needle. -/
theorem of_begins {tail : List α} (foreign : c ∉ tail) (free : ¬ (c :: tail) <:+: front) :
    Clear (c :: tail) front (c :: rest) := by
  induction front with
  | nil => trivial
  | cons d front ih =>
    refine ⟨fun found => free ?_, ih fun inner => free (inner.trans (List.suffix_cons d front).isInfix)⟩
    rw [List.cons_prefix_cons] at found
    exact (List.cons_prefix_cons.mpr ⟨found.1, prefix_of_prefix_cut foreign found.2⟩).isInfix

end Clear

end Scan
