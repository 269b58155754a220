import Mathlib.Data.List.Basic
import Mathlib.Data.Char

/-! Letter case: folding that knows the ASCII letters only, and full lower-casing, which
follows the character database and gives a capital sigma at the end of a word its final form. -/
namespace Unicode

/-- The ASCII letters folded, everything else kept. -/
def asciiLower (s : String) : String := String.ofList (s.toList.map Char.toLower)

/-- What lower-casing reads in the character database. A lower-case mapping is stable, and the
ASCII letters have the mapping and the properties they are known by. -/
structure CaseData where
  lower : Char → List Char
  cased : Char → Bool
  caseIgnorable : Char → Bool
  lower_ascii : ∀ c, c.toNat < 128 → lower c = [c.toLower]
  lower_lower : ∀ c, ∀ d ∈ lower c, lower d = [d]
  lower_sigma : lower 'Σ' = ['σ']
  lower_final : lower 'ς' = ['ς']
  cased_toLower : ∀ c, cased c.toLower = cased c
  caseIgnorable_toLower : ∀ c, caseIgnorable c.toLower = caseIgnorable c

theorem val_toLower (c : Char) : c.toLower.val = if c.val ≥ 'A'.val ∧
    c.val ≤ 'Z'.val then c.val + 32 else c.val := by
  delta Char.toLower
  split <;> rfl

/-- Folding moves only ASCII letters. -/
theorem toLower_eq_or_ascii (c : Char) : c.toLower = c ∨ c.toNat < 128 ∧ c.toLower.toNat < 128 := by
  by_cases h : c.val ≥ 'A'.val ∧ c.val ≤ 'Z'.val
  · right
    have h1 : c.val.toNat ≤ 90 := UInt32.le_iff_toNat_le.mp h.2
    have h0 : 65 ≤ c.val.toNat := UInt32.le_iff_toNat_le.mp h.1
    refine ⟨by change c.val.toNat < 128; omega, ?_⟩
    change c.toLower.val.toNat < 128
    rw [val_toLower, if_pos h, UInt32.toNat_add]
    have : (32 : UInt32).toNat = 32 := rfl
    omega
  · left
    exact Char.ext ((val_toLower c).trans (if_neg h))

theorem toLower_toLower (c : Char) : c.toLower.toLower = c.toLower := by
  apply Char.ext
  rw [val_toLower c.toLower]
  by_cases h : c.val ≥ 'A'.val ∧ c.val ≤ 'Z'.val
  · have h0 : 65 ≤ c.val.toNat := UInt32.le_iff_toNat_le.mp h.1
    have h1 : c.val.toNat ≤ 90 := UInt32.le_iff_toNat_le.mp h.2
    have hv : c.toLower.val.toNat = c.val.toNat + 32 := by
      rw [val_toLower, if_pos h, UInt32.toNat_add]
      have : (32 : UInt32).toNat = 32 := rfl
      omega
    apply if_neg
    rintro ⟨-, h2⟩
    have : c.toLower.val.toNat ≤ 90 := UInt32.le_iff_toNat_le.mp h2
    omega
  · have : c.toLower = c := Char.ext ((val_toLower c).trans (if_neg h))
    rw [this, if_neg h]

namespace CaseData
variable (D : CaseData)

def caseIgnorableThenCased (s : List Char) : Bool :=
  match s.dropWhile D.caseIgnorable with
  | c :: _ => D.cased c
  | [] => false

/-- The lower-case form of a capital sigma, from what stands before it, read backwards, and after it. -/
def lowerSigma (before after : List Char) : Char :=
  if D.caseIgnorableThenCased before && !D.caseIgnorableThenCased after then 'ς' else 'σ'

def lowerFrom (before : List Char) : List Char → List Char
  | [] => []
  | c :: rest => (if c = 'Σ' then [D.lowerSigma before rest] else D.lower c) ++ lowerFrom (c :: before) rest

/-- Full lower-casing of a text. -/
def toLowercase (s : String) : String := String.ofList (D.lowerFrom [] s.toList)

/-- A character that lower-casing leaves alone wherever it stands. -/
def Settled (c : Char) : Prop := c ≠ 'Σ' ∧ D.lower c = [c]

theorem lowerFrom_settled (before s : List Char) (h : ∀ c ∈ s, D.Settled c) : D.lowerFrom before s = s := by
  induction s generalizing before with
  | nil => rfl
  | cons c rest ih =>
    obtain ⟨hs, hl⟩ := h c (by simp)
    rw [lowerFrom, if_neg hs, hl, ih _ fun d hd => h d (by simp [hd])]
    rfl

theorem settled_of_mem_lower {c d : Char} (h : d ∈ D.lower c) : D.Settled d := by
  have hd := D.lower_lower c d h
  refine ⟨?_, hd⟩
  rintro rfl
  rw [D.lower_sigma] at hd
  exact absurd hd (by decide)

theorem lowerSigma_settled (before after : List Char) : D.Settled (D.lowerSigma before after) := by
  unfold lowerSigma
  split
  · exact ⟨by decide, D.lower_final⟩
  · exact D.settled_of_mem_lower (c := 'Σ') (by rw [D.lower_sigma]; simp)

theorem mem_lowerFrom_settled (before s : List Char) : ∀ d ∈ D.lowerFrom before s, D.Settled d := by
  induction s generalizing before with
  | nil => simp [lowerFrom]
  | cons c rest ih =>
    intro d hd
    rw [lowerFrom, List.mem_append] at hd
    rcases hd with hd | hd
    · split at hd
      · rw [List.mem_singleton.mp hd]
        exact D.lowerSigma_settled before rest
      · exact D.settled_of_mem_lower hd
    · exact ih _ d hd

theorem toLowercase_toLowercase (s : String) : D.toLowercase (D.toLowercase s) = D.toLowercase s := by
  have h := D.lowerFrom_settled [] _ (D.mem_lowerFrom_settled [] s.toList)
  rw [toLowercase, toLowercase, String.toList_ofList, h]

theorem caseIgnorableThenCased_toLower (s : List Char) :
    D.caseIgnorableThenCased (s.map Char.toLower) = D.caseIgnorableThenCased s := by
  induction s with
  | nil => rfl
  | cons c rest ih =>
    unfold caseIgnorableThenCased at ih ⊢
    rw [List.map_cons, List.dropWhile_cons, List.dropWhile_cons, D.caseIgnorable_toLower]
    cases D.caseIgnorable c with
    | true => exact ih
    | false => exact D.cased_toLower c

theorem lower_toLower (c : Char) : D.lower c.toLower = D.lower c := by
  rcases toLower_eq_or_ascii c with h | ⟨hc, hl⟩
  · rw [h]
  · rw [D.lower_ascii _ hc, D.lower_lower c c.toLower (by rw [D.lower_ascii _ hc]; simp)]

theorem toLower_eq_sigma (c : Char) : c.toLower = 'Σ' ↔ c = 'Σ' := by
  rcases toLower_eq_or_ascii c with h | ⟨hc, hl⟩
  · rw [h]
  · constructor
    · intro h
      rw [h] at hl
      exact absurd hl (by decide)
    · rintro rfl
      exact absurd hc (by decide)

theorem lowerFrom_toLower (before s : List Char) :
    D.lowerFrom (before.map Char.toLower) (s.map Char.toLower) = D.lowerFrom before s := by
  induction s generalizing before with
  | nil => rfl
  | cons c rest ih =>
    have hrest := ih (c :: before)
    rw [List.map_cons] at hrest
    rw [List.map_cons, lowerFrom, lowerFrom, hrest]
    simp only [toLower_eq_sigma, lowerSigma, D.caseIgnorableThenCased_toLower, D.lower_toLower]

/-- Folding the ASCII letters first changes nothing. -/
theorem toLowercase_asciiLower (s : String) : D.toLowercase (asciiLower s) = D.toLowercase s := by
  rw [toLowercase, toLowercase, asciiLower, String.toList_ofList]
  exact congrArg String.ofList (D.lowerFrom_toLower [] s.toList)

/-- Without a capital sigma every character is lowered by itself. -/
theorem lowerFrom_eq_flatMap (before : List Char) {s : List Char} (plain : 'Σ' ∉ s) :
    D.lowerFrom before s = s.flatMap D.lower := by
  induction s generalizing before with
  | nil => rfl
  | cons c rest ih =>
    rw [List.mem_cons, not_or] at plain
    rw [lowerFrom, if_neg (Ne.symm plain.1), ih _ plain.2, List.flatMap_cons]

/-- A text with a capital sigma does not lower to ASCII. -/
theorem sigma_not_mem {before s : List Char} (ascii : ∀ d ∈ D.lowerFrom before s, d.toNat < 128) : 'Σ' ∉ s := by
  induction s generalizing before with
  | nil => exact List.not_mem_nil
  | cons c rest ih =>
    rw [lowerFrom, List.forall_mem_append] at ascii
    refine List.not_mem_cons_of_ne_of_not_mem ?_ (ih ascii.2)
    rintro rfl
    have small := ascii.1 _ (List.mem_singleton_self _)
    unfold lowerSigma at small
    split at small <;> exact absurd small (by decide)

end CaseData
end Unicode
