import MailKeep.Keyed.Table
import Mathlib.Order.Basic

/-! Rows that carry a version: what a writer may conclude from a version it has seen before. -/
namespace Keyed.Table

variable {κ ρ V : Type} {key : ρ → κ} [PartialOrder V] {version : ρ → V} {before mid after : Table key} {r r' : ρ}

/-- Rows may go. One that stays keeps its key and is as it was or has a higher version. -/
def Evolves (version : ρ → V) (before after : Table key) : Prop :=
  ∀ r' ∈ after, ∃ r ∈ before, key r = key r' ∧ (r = r' ∨ version r < version r')

theorem Evolves.refl (t : Table key) : t.Evolves version t := fun r hr => ⟨r, hr, rfl, .inl rfl⟩

theorem Evolves.trans (h : before.Evolves version mid) (h' : mid.Evolves version after) :
    before.Evolves version after := by
  intro r'' h''
  obtain ⟨r', hr', hk', hv'⟩ := h' r'' h''
  obtain ⟨r, hr, hk, hv⟩ := h r' hr'
  refine ⟨r, hr, hk.trans hk', ?_⟩
  rcases hv with rfl | hv
  · exact hv'
  · rcases hv' with rfl | hv'
    · exact .inr hv
    · exact .inr (hv.trans hv')

theorem Evolves.filter (p : ρ → Bool) : before.Evolves version (before.filter p) :=
  fun r hr => ⟨r, (mem_filter.mp hr).1, rfl, .inl rfl⟩

theorem Evolves.update {p : ρ → Bool} {f : ρ → ρ} (hf : ∀ r, key (f r) = key r)
    (up : ∀ r, p r = true → f r = r ∨ version r < version (f r)) :
      before.Evolves version (before.update p f hf) := by
  intro r' hr'
  obtain ⟨r, hr, rfl⟩ := mem_update.mp hr'
  refine ⟨r, hr, ?_⟩
  split
  · rename_i selected
    exact ⟨(hf r).symm, (up r selected).imp_left Eq.symm⟩
  · exact ⟨rfl, .inl rfl⟩

/-- Where the row of before is found again with its version, it is the same row. -/
theorem Evolves.eq_of_version (h : before.Evolves version after) (hr : r ∈ before) (hr' : r' ∈ after)
    (same : key r' = key r) (hv : version r' = version r) : r' = r := by
  obtain ⟨x, hx, hk, he⟩ := h r' hr'
  obtain rfl := eq_of_key hx hr (hk.trans same)
  exact (he.resolve_right fun lt => lt.ne' hv).symm

/-- A row that is there before and after has been there all along. -/
theorem Evolves.mem_between (h : before.Evolves version mid) (h' : mid.Evolves version after) (hr : r ∈ before)
    (hr' : r ∈ after) : r ∈ mid := by
  obtain ⟨m, hm, hk', hv'⟩ := h' r hr'
  obtain ⟨x, hx, hk, hv⟩ := h m hm
  obtain rfl := eq_of_key hx hr (hk.trans hk')
  rcases hv with rfl | hv
  · exact hm
  · rcases hv' with rfl | hv'
    · exact hm
    · exact absurd (hv.trans hv') (lt_irrefl _)

end Keyed.Table
