import Mathlib.Data.Set.Finite.Lemmas

/-! Rows written one after the other, each in the place of the row with its key, and writes that still wait to be
served, the one of the highest rank first. -/
namespace Keyed

variable {κ ρ τ : Type} (key : ρ → κ)

/-- The row takes the place of the one with its key. -/
def write (r : ρ) (rows : Set ρ) : Set ρ := {x | x = r ∨ x ∈ rows ∧ key x ≠ key r}

def writeAll (rs : List ρ) (rows : Set ρ) : Set ρ := rs.foldl (fun rows r => write key r rows) rows

/-- The last one with its key. -/
def Last (x : ρ) : List ρ → Prop
  | [] => False
  | r :: rs => Last x rs ∨ r = x ∧ ∀ r' ∈ rs, key r' ≠ key x

variable {key} {x : ρ} {rs rs' : List ρ} {rows : Set ρ}

theorem Last.mem (h : Last key x rs) : x ∈ rs := by
  induction rs with
  | nil => exact h.elim
  | cons r rs ih =>
    rcases h with h | ⟨rfl, -⟩
    · exact List.mem_cons_of_mem _ (ih h)
    · exact List.mem_cons_self

theorem write_again {r : ρ} : write key r (write key r rows) = write key r rows := by
  ext y
  constructor
  · rintro (rfl | ⟨there, -⟩)
    · exact .inl rfl
    · exact there
  · rintro (rfl | there)
    · exact .inl rfl
    · exact .inr ⟨.inr there, there.2⟩

theorem writeAll_append : writeAll key (rs ++ rs') rows = writeAll key rs' (writeAll key rs rows) :=
  List.foldl_append

/-- A row is there if it was the last write of its key, or no write has touched it. -/
theorem mem_writeAll : x ∈ writeAll key rs rows ↔ Last key x rs ∨ x ∈ rows ∧ ∀ r ∈ rs, key r ≠ key x := by
  induction rs generalizing rows with
  | nil => simp [writeAll, Last]
  | cons r rs ih =>
    change x ∈ writeAll key rs (write key r rows) ↔ _
    rw [ih]
    simp only [write, Set.mem_ofPred_eq, Last, List.forall_mem_cons]
    constructor
    · rintro (last | ⟨rfl | ⟨old, differs⟩, others⟩)
      · exact .inl (.inl last)
      · exact .inl (.inr ⟨rfl, others⟩)
      · exact .inr ⟨old, differs.symm, others⟩
    · rintro ((last | ⟨rfl, others⟩) | ⟨old, differs, others⟩)
      · exact .inl last
      · exact .inr ⟨.inl rfl, others⟩
      · exact .inr ⟨.inr ⟨old, differs.symm⟩, others⟩

/-- Writing the same rows again changes nothing. -/
theorem writeAll_again : writeAll key rs (writeAll key rs rows) = writeAll key rs rows := by
  ext x
  rw [mem_writeAll, mem_writeAll]
  tauto

/-- Rows of before make no difference just where every one of them is written over. -/
theorem writeAll_eq_iff : writeAll key rs rows = writeAll key rs ∅ ↔ ∀ x ∈ rows, ∃ r ∈ rs, key r = key x := by
  constructor
  · intro same x hx
    by_contra none
    push Not at none
    have there : x ∈ writeAll key rs ∅ := same ▸ mem_writeAll.mpr (.inr ⟨hx, none⟩)
    rcases mem_writeAll.mp there with last | ⟨none', -⟩
    · exact none x last.mem rfl
    · exact none'
  · intro replaced
    ext x
    rw [mem_writeAll, mem_writeAll]
    refine or_congr_right (iff_of_false ?_ fun h => h.1)
    rintro ⟨hx, untouched⟩
    obtain ⟨r, hr, same⟩ := replaced x hx
    exact untouched r hr same

section Waiting
variable [LinearOrder τ] (key)

/-- The rows once everything that waits has been served: of each key the write of the lowest rank comes last. -/
def settled (waiting : Set (τ × ρ)) (rows : Set ρ) : Set ρ :=
  {x | (∃ t, (t, x) ∈ waiting ∧ ∀ p ∈ waiting, key p.2 = key x → t ≤ p.1) ∨ x ∈ rows ∧ ∀ p ∈ waiting, key p.2 ≠ key x}

variable {key} {waiting : Set (τ × ρ)} {p : τ × ρ}

theorem settled_of_none (none : ∀ p, p ∉ waiting) : settled key waiting rows = rows := by
  ext x
  constructor
  · rintro (⟨t, ht, -⟩ | ⟨hx, -⟩)
    · exact absurd ht (none _)
    · exact hx
  · exact fun hx => .inr ⟨hx, fun p hp => absurd hp (none p)⟩

/-- A write that still waits may be made already. -/
theorem settled_write (hp : p ∈ waiting) : settled key waiting (write key p.2 rows) = settled key waiting rows := by
  ext x
  apply or_congr_right
  constructor
  · rintro ⟨rfl | ⟨hx, -⟩, untouched⟩
    · exact absurd rfl (untouched p hp)
    · exact ⟨hx, untouched⟩
  · rintro ⟨hx, untouched⟩
    exact ⟨.inr ⟨hx, (untouched p hp).symm⟩, untouched⟩

variable (rows) in
/-- The first write of its key is served. -/
theorem settled_serve (hp : p ∈ waiting) (first : ∀ q ∈ waiting, key q.2 = key p.2 → q.1 ≤ p.1)
    (only : ∀ q ∈ waiting, q.1 = p.1 → q = p) :
    settled key (waiting \ {p}) (write key p.2 rows) = settled key waiting rows := by
  have rest : ∀ q, q ∈ waiting \ {p} ↔ q ∈ waiting ∧ q ≠ p := fun _ => Iff.rfl
  ext x
  constructor
  · rintro (⟨t, ht, least⟩ | ⟨rfl | ⟨hx, differs⟩, untouched⟩)
    · refine .inl ⟨t, ht.1, fun q hq same => ?_⟩
      by_cases he : q = p
      · exact he ▸ first _ ht.1 (he ▸ same.symm)
      · exact least q ((rest q).mpr ⟨hq, he⟩) same
    · refine .inl ⟨p.1, hp, fun q hq same => ?_⟩
      by_cases he : q = p
      · exact he ▸ le_rfl
      · exact absurd same (untouched q ((rest q).mpr ⟨hq, he⟩))
    · refine .inr ⟨hx, fun q hq => ?_⟩
      by_cases he : q = p
      · exact he ▸ differs.symm
      · exact untouched q ((rest q).mpr ⟨hq, he⟩)
  · rintro (⟨t, ht, least⟩ | ⟨hx, untouched⟩)
    · by_cases he : (t, x) = p
      · -- the lowest and the highest of its key: it is alone
        subst he
        refine .inr ⟨.inl rfl, fun q hq same => ?_⟩
        obtain ⟨hq, ne⟩ := (rest q).mp hq
        exact ne (only q hq (le_antisymm (first q hq same) (least q hq same)))
      · exact .inl ⟨t, (rest _).mpr ⟨ht, he⟩, fun q hq same => least q ((rest q).mp hq).1 same⟩
    · exact .inr ⟨.inr ⟨hx, (untouched p hp).symm⟩, fun q hq => untouched q ((rest q).mp hq).1⟩

/-- A write that comes after all that wait. -/
theorem settled_join (below : ∀ q ∈ waiting, p.1 < q.1) :
    settled key (insert p waiting) rows = write key p.2 (settled key waiting rows) := by
  have hp : p ∈ insert p waiting := Set.mem_insert p waiting
  have old : ∀ q ∈ waiting, q ∈ insert p waiting := fun q hq => Set.mem_insert_of_mem p hq
  ext x
  constructor
  · rintro (⟨t, ht, least⟩ | ⟨hx, untouched⟩)
    · rcases Set.mem_insert_iff.mp ht with rfl | ht
      · exact .inl rfl
      · refine .inr ⟨.inl ⟨t, ht, fun q hq same => least q (old q hq) same⟩, fun same => ?_⟩
        exact absurd (least p hp same.symm) (not_le.mpr (below _ ht))
    · exact .inr ⟨.inr ⟨hx, fun q hq => untouched q (old q hq)⟩, (untouched p hp).symm⟩
  · rintro (rfl | ⟨⟨t, ht, least⟩ | ⟨hx, untouched⟩, differs⟩)
    · refine .inl ⟨p.1, hp, fun q hq _ => ?_⟩
      rcases Set.mem_insert_iff.mp hq with rfl | hq
      · exact le_rfl
      · exact (below q hq).le
    · refine .inl ⟨t, old _ ht, fun q hq same => ?_⟩
      rcases Set.mem_insert_iff.mp hq with rfl | hq
      · exact absurd same.symm differs
      · exact least q hq same
    · refine .inr ⟨hx, fun q hq => ?_⟩
      rcases Set.mem_insert_iff.mp hq with rfl | hq
      · exact differs.symm
      · exact untouched q hq

/-- Each row of before keeps its key, whatever is written. -/
theorem settled_key (finite : waiting.Finite) (hx : x ∈ rows) : ∃ y ∈ settled key waiting rows, key y = key x := by
  by_cases written : ∃ p ∈ waiting, key p.2 = key x
  · obtain ⟨p, ⟨hp, same⟩, least⟩ := Set.exists_min_image {p | p ∈ waiting ∧ key p.2 = key x} Prod.fst
      (finite.subset fun p hp => hp.1) written
    exact ⟨p.2, .inl ⟨p.1, hp, fun q hq he => least q ⟨hq, he.trans same⟩⟩, same⟩
  · push Not at written
    exact ⟨x, .inr ⟨hx, written⟩, rfl⟩

end Waiting
end Keyed
