import Mathlib.Logic.Relation

/-! Nodes that list their children, and the walk that collects all nodes below one. -/
namespace Forest
open Relation

variable {ν : Type*} (children? : ν → Option (List ν))

/-- Appends each child to what has been collected and then what is below it; there is no result where a node is
missing or the depth is used up. -/
def descend : Nat → ν → List ν → Option (List ν)
  | 0, _, _ => none
  | depth + 1, i, out => do
    let cs ← children? i
    cs.foldlM (fun out c => descend depth c (out ++ [c])) out

def Child (i d : ν) : Prop := ∃ cs, children? i = some cs ∧ d ∈ cs

variable {children?} {depth : Nat} {i d : ν} {out ds : List ν}

/-- What is below a node is a child or below one. -/
theorem transGen_child_iff {cs : List ν} (h : children? i = some cs) :
    TransGen (Child children?) i d ↔ ∃ c ∈ cs, d = c ∨ TransGen (Child children?) c d := by
  rw [TransGen.head'_iff]
  constructor
  · rintro ⟨c, ⟨cs', same, mem⟩, below⟩
    cases h.symm.trans same
    exact ⟨c, mem, reflTransGen_iff_eq_or_transGen.mp below⟩
  · rintro ⟨c, mem, below⟩
    exact ⟨c, ⟨cs, h, mem⟩, reflTransGen_iff_eq_or_transGen.mpr below⟩

section Loops
variable {cs : List ν} {f g : List ν → ν → Option (List ν)}

theorem mem_foldlM {P : ν → ν → Prop} (hf : ∀ out c ds d, f out c = some ds → (d ∈ ds ↔ d ∈ out ∨ P c d))
    (h : cs.foldlM f out = some ds) : d ∈ ds ↔ d ∈ out ∨ ∃ c ∈ cs, P c d := by
  induction cs generalizing out with
  | nil =>
    cases h
    simp
  | cons c cs ih =>
    obtain ⟨mid, first, h⟩ := Option.bind_eq_some_iff.mp h
    rw [ih h, hf out c mid d first, or_assoc]
    simp only [List.mem_cons, exists_eq_or_imp]

theorem foldlM_mono (hfg : ∀ out c ds, f out c = some ds → g out c = some ds) (h : cs.foldlM f out = some ds) :
    cs.foldlM g out = some ds := by
  induction cs generalizing out with
  | nil => exact h
  | cons c cs ih =>
    obtain ⟨mid, first, h⟩ := Option.bind_eq_some_iff.mp h
    exact Option.bind_eq_some_iff.mpr ⟨mid, hfg out c mid first, ih h⟩

theorem foldlM_isSome (hf : ∀ out, ∀ c ∈ cs, (f out c).isSome) : (cs.foldlM f out).isSome := by
  induction cs generalizing out with
  | nil => rfl
  | cons c cs ih =>
    obtain ⟨mid, first⟩ := Option.isSome_iff_exists.mp (hf out c List.mem_cons_self)
    obtain ⟨ds, rest⟩ := Option.isSome_iff_exists.mp (@ih mid fun out c' mem => hf out c' (List.mem_cons_of_mem _ mem))
    exact Option.isSome_iff_exists.mpr ⟨ds, Option.bind_eq_some_iff.mpr ⟨mid, first, rest⟩⟩

end Loops

/-- The walk collects just what is below. -/
theorem mem_descend (h : descend children? depth i out = some ds) :
    d ∈ ds ↔ d ∈ out ∨ TransGen (Child children?) i d := by
  induction depth generalizing i d out ds with
  | zero => cases h
  | succ depth ih =>
    obtain ⟨cs, hcs, loop⟩ := Option.bind_eq_some_iff.mp h
    rw [transGen_child_iff hcs]
    apply mem_foldlM _ loop
    intro out c ds d each
    rw [ih each, List.mem_append, List.mem_singleton, or_assoc]

/-- More depth than needed makes no difference. -/
theorem descend_mono {depth' : Nat} (h : descend children? depth i out = some ds) (more : depth ≤ depth') :
    descend children? depth' i out = some ds := by
  induction depth generalizing depth' i out ds with
  | zero => cases h
  | succ depth ih =>
    obtain ⟨n, rfl⟩ := Nat.exists_eq_add_of_le more
    obtain ⟨cs, hcs, loop⟩ := Option.bind_eq_some_iff.mp h
    rw [Nat.add_right_comm]
    refine Option.bind_eq_some_iff.mpr ⟨cs, hcs, foldlM_mono ?_ loop⟩
    intro out c ds each
    exact ih each (Nat.le_add_right depth n)

/-- Where each child is there and ranks below its parent, a depth above the rank is enough. -/
theorem descend_isSome {rank : ν → Nat}
    (ranked : ∀ i d, Child children? i d → (children? d).isSome ∧ rank d < rank i)
    (there : (children? i).isSome) (enough : rank i < depth) : (descend children? depth i out).isSome := by
  induction depth generalizing i out with
  | zero => exact absurd enough (Nat.not_lt_zero _)
  | succ depth ih =>
    obtain ⟨cs, hcs⟩ := Option.isSome_iff_exists.mp there
    have loop : (cs.foldlM (fun out c => descend children? depth c (out ++ [c])) out).isSome := by
      apply foldlM_isSome
      intro out c mem
      obtain ⟨child, lower⟩ := ranked i c ⟨cs, hcs, mem⟩
      exact ih child (Nat.lt_of_lt_of_le lower (Nat.le_of_lt_succ enough))
    obtain ⟨ds, done⟩ := Option.isSome_iff_exists.mp loop
    exact Option.isSome_iff_exists.mpr ⟨ds, Option.bind_eq_some_iff.mpr ⟨cs, hcs, done⟩⟩

end Forest
