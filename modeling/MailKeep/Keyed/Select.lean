import MailKeep.Keyed.Table

/-! What a selection of a table sees of look-ups and of writes to the table. -/
namespace Keyed.Table
variable {κ ρ : Type} {key : ρ → κ} {t t' : Table key} {p q : ρ → Bool}

/-- A row that was selected before a wider selection is selected after it. -/
theorem filter_filter_of_imp (wider : ∀ r ∈ t, p r = true → q r = true) : (t.filter q).filter p = t.filter p := by
  apply eq_of_rows
  change (t.rows.filter q).filter p = t.rows.filter p
  rw [List.filter_filter]
  refine List.filter_congr fun r hr => ?_
  cases selected : p r with
  | false => rfl
  | true => rw [wider r hr selected, Bool.and_self]

/-- Rewriting rows outside of the selection. -/
theorem filter_update_out {f : ρ → ρ} {hf : ∀ r, key (f r) = key r}
    (out : ∀ r ∈ t, q r = true → p r = false ∧ p (f r) = false) : (t.update q f hf).filter p = t.filter p := by
  apply eq_of_rows
  change (t.rows.map _).filter p = t.rows.filter p
  rw [List.filter_map]
  have same : ∀ r ∈ t.rows, (p ∘ fun r => if q r = true then f r else r) r = p r := by
    intro r hr
    rw [Function.comp_apply]
    split
    · rename_i selected
      rw [(out r hr selected).1, (out r hr selected).2]
    · rfl
  rw [List.filter_congr same]
  refine (List.map_congr_left fun r hr => ?_).trans (List.map_id _)
  obtain ⟨there, kept⟩ := List.mem_filter.mp hr
  refine if_neg fun selected => ?_
  rw [(out r there selected).1] at kept
  cases kept

variable [DecidableEq κ]

theorem find?_filter {k : κ} : (t.filter p).find? k = (t.find? k).filter p := by
  apply Option.ext
  intro r
  rw [find?_eq_some, mem_filter, Option.filter_eq_some_iff, find?_eq_some]
  exact ⟨fun h => ⟨⟨h.1.1, h.2⟩, h.1.2⟩, fun h => ⟨⟨h.1.1, h.2⟩, h.1.2⟩⟩

/-- A new row outside of the selection. -/
theorem filter_insert_out {r : ρ} (h : t.insert r = some t') (out : p r = false) : t'.filter p = t.filter p := by
  apply eq_of_rows
  change t'.rows.filter p = t.rows.filter p
  rw [(insert_eq_some h).2, List.filter_append, List.filter_cons_of_neg (by simp [out]), List.filter_nil, List.append_nil]

end Keyed.Table
