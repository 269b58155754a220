import MailKeep.Keyed.Table

/-! Every row of a table rewritten at once, and what the statements on the table make of that. -/
namespace Keyed.Table
variable {κ ρ : Type} {key : ρ → κ} {t t' : Table key} {g : ρ → ρ} {hg : ∀ r, key (g r) = key r}

/-- `g` leaves the key alone. -/
def map (t : Table key) (g : ρ → ρ) (hg : ∀ r, key (g r) = key r) : Table key where
  rows := t.rows.map g
  nodup := by
    have : (t.rows.map g).map key = t.rows.map key :=
      (List.map_map ..).trans (List.map_congr_left fun r _ => hg r)
    exact this ▸ t.nodup

theorem mem_map {r : ρ} : r ∈ t.map g hg ↔ ∃ r' ∈ t, g r' = r := List.mem_map

/-- A selection that reads nothing of what is rewritten. -/
theorem filter_map {p : ρ → Bool} (same : ∀ r, p (g r) = p r) : (t.map g hg).filter p = (t.filter p).map g hg := by
  apply eq_of_rows
  refine List.filter_map.trans ?_
  rw [show p ∘ g = p from funext same]
  rfl

theorem update_map {p : ρ → Bool} (same : ∀ r, p (g r) = p r) {f f' : ρ → ρ} {hf : ∀ r, key (f r) = key r}
    {hf' : ∀ r, key (f' r) = key r} (commute : ∀ r ∈ t, p r = true → f' (g r) = g (f r)) :
    (t.map g hg).update p f' hf' = (t.update p f hf).map g hg := by
  apply eq_of_rows
  change (t.rows.map g).map _ = (t.rows.map _).map g
  rw [List.map_map, List.map_map]
  refine List.map_congr_left fun r hr => ?_
  rw [Function.comp_apply, Function.comp_apply, same]
  split
  · rename_i selected
    exact commute r hr selected
  · rfl

variable [DecidableEq κ]

theorem find?_map (t : Table key) (hg : ∀ r, key (g r) = key r) (k : κ) : (t.map g hg).find? k = (t.find? k).map g := by
  change (t.rows.map g).find? _ = (t.rows.find? _).map g
  rw [List.find?_map]
  refine congrArg (fun p => (t.rows.find? p).map g) (funext fun r => ?_)
  rw [Function.comp_apply, hg]

theorem insert_map (t : Table key) (r : ρ) : (t.map g hg).insert (g r) = (t.insert r).map (·.map g hg) := by
  have keys : (t.map g hg).rows.map key = t.rows.map key :=
    (List.map_map ..).trans (List.map_congr_left fun r _ => hg r)
  unfold insert
  by_cases taken : key r ∈ t.rows.map key
  · rw [dif_pos taken, dif_pos (by rwa [keys, hg])]
    rfl
  · rw [dif_neg taken, dif_neg (by rwa [keys, hg])]
    apply congrArg some
    apply eq_of_rows
    exact (List.map_append : (t.rows ++ [r]).map g = _).symm

end Keyed.Table
