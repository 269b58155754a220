import Mathlib.Data.List.Nodup
import Mathlib.Data.List.Induction

/-! Tables whose rows carry distinct primary keys, with the statements a relational store
offers on them: select by key, insert, update of a selection, delete of a selection. -/
namespace Keyed

/-- A search finds what alone meets its condition. -/
theorem find?_of_unique {α : Type} {l : List α} {p : α → Bool} {x : α} (mem : x ∈ l) (meets : p x = true)
    (unique : ∀ y ∈ l, p y = true → y = x) : l.find? p = some x := by
  obtain ⟨y, found⟩ := Option.isSome_iff_exists.mp (List.find?_isSome.mpr ⟨x, mem, meets⟩)
  rw [found, unique y (List.mem_of_find?_eq_some found) (List.find?_some found)]

/-- A dictionary made of entries with distinct keys has what a search for the key finds. -/
theorem foldl_update_eq_find? {κ ρ ν : Type} [DecidableEq κ] {key : ρ → κ} {value : ρ → ν} {rows : List ρ}
    (distinct : (rows.map key).Nodup) (k : κ) :
    (rows.foldl (fun m r => Function.update m (key r) (some (value r))) fun _ => none) k =
      (rows.find? fun r => key r = k).map value := by
  induction rows using List.reverseRecOn with
  | nil => rfl
  | append_singleton rows r ih =>
    obtain ⟨before, -, apart⟩ := List.nodup_append.mp (List.map_append ▸ distinct)
    rw [List.foldl_append, List.find?_append]
    change (Function.update _ (key r) (some (value r)) : κ → Option ν) k = _
    rw [Function.update_apply]
    split
    · rename_i same
      have absent : rows.find? (fun x => key x = k) = none := by
        apply List.find?_eq_none.mpr
        intro x hx found
        exact apart _ (List.mem_map_of_mem hx) _ (List.mem_singleton.mpr rfl) (of_decide_eq_true found ▸ same)
      rw [absent]
      simp [same]
    · rename_i other
      rw [ih before]
      simp [Ne.symm other]

/-- Rows in insertion order; no two share a key. -/
structure Table {κ ρ : Type} (key : ρ → κ) where
  rows : List ρ
  nodup : (rows.map key).Nodup

namespace Table
variable {κ ρ : Type} {key : ρ → κ}

instance : Membership ρ (Table key) := ⟨fun t r => r ∈ t.rows⟩

theorem mem_def {t : Table key} {r : ρ} : r ∈ t ↔ r ∈ t.rows := Iff.rfl

theorem eq_of_rows {t t' : Table key} (h : t.rows = t'.rows) : t = t' := by
  cases t
  cases h
  rfl

def empty : Table key := ⟨[], List.nodup_nil⟩

@[simp] theorem not_mem_empty (r : ρ) : r ∉ (empty : Table key) := List.not_mem_nil

theorem eq_of_key {t : Table key} {r r' : ρ} (h : r ∈ t) (h' : r' ∈ t) (hk : key r = key r') : r = r' :=
  List.inj_on_of_nodup_map t.nodup h h' hk

def filter (t : Table key) (p : ρ → Bool) : Table key :=
  ⟨t.rows.filter p, t.nodup.sublist (t.rows.filter_sublist.map key)⟩

@[simp] theorem mem_filter {t : Table key} {p : ρ → Bool} {r : ρ} : r ∈ t.filter p ↔ r ∈ t ∧ p r = true :=
  List.mem_filter

/-- Rows that `p` selects are rewritten by `f`, which leaves the key alone. -/
def update (t : Table key) (p : ρ → Bool) (f : ρ → ρ) (hf : ∀ r, key (f r) = key r) : Table key where
  rows := t.rows.map fun r => if p r then f r else r
  nodup := by
    have : (t.rows.map fun r => if p r then f r else r).map key = t.rows.map key := by
      rw [List.map_map]
      exact List.map_congr_left fun r _ => by simp only [Function.comp]; split <;> simp [hf]
    exact this ▸ t.nodup

theorem update_keys {t : Table key} {p : ρ → Bool} {f : ρ → ρ} {hf : ∀ r, key (f r) = key r} :
    (t.update p f hf).rows.map key = t.rows.map key := by
  apply (List.map_map ..).trans
  apply List.map_congr_left
  intro r _
  simp only [Function.comp]
  split
  · exact hf r
  · rfl

theorem mem_update {t : Table key} {p : ρ → Bool} {f : ρ → ρ} {hf : ∀ r, key (f r) = key r} {r : ρ} :
    r ∈ t.update p f hf ↔ ∃ r' ∈ t, r = if p r' then f r' else r' := by
  constructor
  · intro h
    obtain ⟨r', hr', he⟩ := List.mem_map.mp h
    exact ⟨r', hr', he.symm⟩
  · rintro ⟨r', hr', rfl⟩
    exact List.mem_map.mpr ⟨r', hr', rfl⟩

/-- An update is told by what it makes of the rows that are there. -/
theorem update_congr {t : Table key} {p q : ρ → Bool} {f g : ρ → ρ} {hf : ∀ r, key (f r) = key r}
    {hg : ∀ r, key (g r) = key r} (same : ∀ r ∈ t, (if p r then f r else r) = if q r then g r else r) :
    t.update p f hf = t.update q g hg := by
  apply eq_of_rows
  exact List.map_congr_left same

theorem update_of_fixed {t : Table key} {p : ρ → Bool} {f : ρ → ρ} {hf : ∀ r, key (f r) = key r}
    (fixed : ∀ r ∈ t, p r = true → f r = r) : t.update p f hf = t := by
  apply eq_of_rows
  apply (List.map_congr_left _).trans (List.map_id t.rows)
  intro r hr
  split
  · rename_i selected
    exact fixed r hr selected
  · rfl

/-- An update that selects one row replaces that row. -/
theorem mem_update_one {t : Table key} {p : ρ → Bool} {f : ρ → ρ} {hf : ∀ r, key (f r) = key r} {r : ρ} (hr : r ∈ t)
    (hp : ∀ r' ∈ t, p r' = true ↔ key r' = key r) {r' : ρ} :
    r' ∈ t.update p f hf ↔ r' = f r ∨ r' ∈ t ∧ key r' ≠ key r := by
  rw [mem_update]
  constructor
  · rintro ⟨x, hx, rfl⟩
    by_cases hk : key x = key r
    · rw [if_pos ((hp x hx).mpr hk), eq_of_key hx hr hk]
      exact .inl rfl
    · rw [if_neg fun h => hk ((hp x hx).mp h)]
      exact .inr ⟨hx, hk⟩
  · rintro (rfl | ⟨hx, hk⟩)
    · exact ⟨r, hr, by rw [if_pos ((hp r hr).mpr rfl)]⟩
    · exact ⟨r', hx, by rw [if_neg fun h => hk ((hp r' hx).mp h)]⟩

/-- Writes to rows, each to the one of its key, one after the other. -/
def writeAll [DecidableEq κ] {α : Type} (t : Table key) (write : α → ρ → ρ) (hw : ∀ a r, key (write a r) = key r)
    (ws : List (κ × α)) : Table key :=
  ws.foldl (fun t w => t.update (fun r => key r = w.1) (write w.2) (hw w.2)) t

theorem writeAll_keys [DecidableEq κ] {α : Type} {t : Table key} {write : α → ρ → ρ}
    {hw : ∀ a r, key (write a r) = key r}
    {ws : List (κ × α)} : (t.writeAll write hw ws).rows.map key = t.rows.map key := by
  induction ws generalizing t with
  | nil => rfl
  | cons w ws ih => exact ih.trans update_keys

/-- Each row takes the writes of its own key. -/
theorem mem_writeAll [DecidableEq κ] {α : Type} {t : Table key} {write : α → ρ → ρ}
    {hw : ∀ a r, key (write a r) = key r}
    {ws : List (κ × α)} {r : ρ} : r ∈ t.writeAll write hw ws ↔
      ∃ r' ∈ t, r = (ws.filter fun w => w.1 = key r').foldl (fun r w => write w.2 r) r' := by
  induction ws generalizing t with
  | nil => simp [writeAll]
  | cons w ws ih =>
    change r ∈ (t.update _ (write w.2) (hw w.2)).writeAll write hw ws ↔ _
    rw [ih]
    have step : ∀ x, ((ws.filter fun v => v.1 = key (if key x = w.1 then write w.2 x else x)).foldl (fun r v => write v.2 r)
        (if key x = w.1 then write w.2 x else x)) = ((w :: ws).filter fun v => v.1 = key x).foldl
          (fun r v => write v.2 r) x := by
      intro x
      by_cases same : key x = w.1
      · rw [if_pos same, hw]
        simp [same]
      · rw [if_neg same]
        simp [Ne.symm same]
    constructor
    · rintro ⟨y, hy, rfl⟩
      obtain ⟨x, hx, rfl⟩ := mem_update.mp hy
      exact ⟨x, hx, by simpa using step x⟩
    · rintro ⟨x, hx, rfl⟩
      exact ⟨_, mem_update.mpr ⟨x, hx, rfl⟩, by simpa using (step x).symm⟩

/-- How many rows a selection has: the row count an update or a delete reports. -/
def count (t : Table key) (p : ρ → Bool) : Nat := t.rows.countP p

theorem count_pos_iff {t : Table key} {p : ρ → Bool} : 0 < t.count p ↔ ∃ r ∈ t, p r = true :=
  List.countP_pos_iff

/-- A selection of one key that has a row has exactly one. -/
theorem count_eq_one {t : Table key} {p : ρ → Bool} {r : ρ} (hr : r ∈ t) (hp : p r = true)
    (unique : ∀ r' ∈ t, p r' = true → key r' = key r) : t.count p = 1 := by
  have hn : (t.rows.filter p).Nodup := t.nodup.of_map.filter p
  have hall : ∀ r' ∈ t.rows.filter p, r' = r := by
    intro r' h
    obtain ⟨hm, hp'⟩ := List.mem_filter.mp h
    exact eq_of_key hm hr (unique r' hm hp')
  have hmem : r ∈ t.rows.filter p := List.mem_filter.mpr ⟨hr, hp⟩
  rw [count, List.countP_eq_length_filter]
  match hl : t.rows.filter p with
  | [] => simp [hl] at hmem
  | [_] => rfl
  | a :: b :: l =>
    have ha := hall a (by simp [hl])
    have hb := hall b (by simp [hl])
    simp [hl, ha, hb] at hn

variable [DecidableEq κ]

def find? (t : Table key) (k : κ) : Option ρ := t.rows.find? fun r => key r = k

theorem find?_eq_some {t : Table key} {k : κ} {r : ρ} : t.find? k = some r ↔ r ∈ t ∧ key r = k := by
  constructor
  · intro h
    exact ⟨List.mem_of_find?_eq_some h, by simpa using List.find?_some h⟩
  · rintro ⟨hr, rfl⟩
    exact find?_of_unique hr (decide_eq_true rfl) fun r' hr' hk => eq_of_key hr' hr (of_decide_eq_true hk)

/-- Rows rewritten one after the other are rewritten at once. -/
theorem update_update_one [DecidableEq ρ] {t : Table key} {f : ρ → ρ} {hf : ∀ r, key (f r) = key r}
    {r : ρ} {rs : List ρ}
    (hr : r ∈ t) (fresh : key r ∉ rs.map key) :
    (t.update (fun x => key x = key r) f hf).update (fun x => x ∈ rs) f hf = t.update
      (fun x => x ∈ r :: rs) f hf := by
  apply eq_of_rows
  apply (List.map_map ..).trans
  apply List.map_congr_left
  intro x hx
  by_cases same : key x = key r
  · obtain rfl := eq_of_key hx hr same
    have absent : f x ∉ rs := fun mem => fresh (hf x ▸ List.mem_map_of_mem mem)
    simp [absent]
  · have other : x ≠ r := fun he => same (congrArg key he)
    simp [same, other]

theorem find?_isNone {t : Table key} {r : ρ} (h : r ∈ t) : (t.find? (key r)).isNone = false := by
  rw [find?_eq_some.mpr ⟨h, rfl⟩]
  rfl

/-- Insertion fails on a key that is taken. -/
def insert (t : Table key) (r : ρ) : Option (Table key) :=
  if h : key r ∈ t.rows.map key then none
  else some ⟨t.rows ++ [r], by simpa [List.nodup_append, t.nodup] using h⟩

theorem insert_eq_some {t t' : Table key} {r : ρ} (h : t.insert r = some t') :
    (∀ r' ∈ t, key r' ≠ key r) ∧ t'.rows = t.rows ++ [r] := by
  unfold insert at h
  split at h
  · cases h
  · rename_i hk
    cases h
    exact ⟨fun r' hr' he => hk (he ▸ List.mem_map_of_mem hr'), rfl⟩

theorem mem_of_insert {t t' : Table key} {r r' : ρ} (h : t.insert r = some t') :
    r' ∈ t' ↔ r' ∈ t ∨ r' = r := by
  rw [mem_def, (insert_eq_some h).2, List.mem_append, List.mem_singleton]
  rfl

theorem insert_isSome {t : Table key} {r : ρ} (h : ∀ r' ∈ t, key r' ≠ key r) :
    ∃ t', t.insert r = some t' := by
  unfold insert
  split
  · rename_i hk
    obtain ⟨r', hr', he⟩ := List.mem_map.mp hk
    exact absurd he (h r' hr')
  · exact ⟨_, rfl⟩

end Table
end Keyed
