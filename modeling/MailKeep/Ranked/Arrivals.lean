import MailKeep.Ranked.Page
import Mathlib.Data.List.Perm.Subperm

/-! Reading a ranked list window after window while rows arrive in it. -/
namespace Ranked
variable {α K : Type} [LinearOrder K]

/-- How many of the keys rank strictly above `k`. -/
def keyRank (keys : List K) (k : K) : Nat := keys.countP fun other => decide (k < other)

/-- Every row stands behind those with greater keys, and no two have one key. -/
def Descending (key : α → K) (rows : List α) : Prop := rows.Pairwise fun above below => key below < key above

variable {key : α → K} {l l' : List α} {x : α} {k : K} {o n : Nat}

theorem rank_eq_keyRank (key : α → K) (l : List α) (x : α) : rank key l x = keyRank (l.map key) (key x) := by
  rw [keyRank, List.countP_map]
  rfl

/-- Arrivals push a row down, never up. -/
theorem keyRank_mono {keys keys' : List K} (arrived : keys.Subperm keys') (k : K) : keyRank keys k ≤ keyRank keys' k :=
  arrived.countP_le _

theorem keyRank_lt_length {keys : List K} (mem : k ∈ keys) : keyRank keys k < keys.length := by
  apply (List.countP_le_length).lt_of_ne
  intro all
  have := List.countP_eq_length.mp all k mem
  simp at this

/-- Which keys a window of a strictly ranked list shows. -/
theorem mem_page_keys (hk : (l.map key).Nodup) :
    k ∈ (page (sortDesc key l) o n).map key ↔ k ∈ l.map key ∧ o ≤ keyRank (l.map key) k ∧ keyRank (l.map key) k < o + n := by
  constructor
  · intro shown
    obtain ⟨x, hx, rfl⟩ := List.mem_map.mp shown
    have ⟨mem, above, below⟩ := (mem_page_sortDesc hk).mp hx
    rw [rank_eq_keyRank] at above below
    exact ⟨List.mem_map_of_mem mem, above, below⟩
  · rintro ⟨mem, above, below⟩
    obtain ⟨x, hx, rfl⟩ := List.mem_map.mp mem
    rw [← rank_eq_keyRank] at above below
    exact List.mem_map_of_mem ((mem_page_sortDesc hk).mpr ⟨hx, above, below⟩)

theorem length_page (l : List α) (o n : Nat) : (page l o n).length = min n (l.length - o) := by
  rw [page, List.length_take, List.length_drop]

/-- What has been read so far of rows that were there at the start: each is read, or it stands behind what was read. -/
def Covers (read : List K) (start now : List K) : Prop := ∀ k ∈ start, k ∈ read ∨ read.length ≤ keyRank now k

theorem Covers.arrivals {read start now now' : List K} (h : Covers read start now) (arrived : now.Subperm now') :
    Covers read start now' :=
  fun k hk => (h k hk).imp_right fun behind => behind.trans (keyRank_mono arrived k)

/-- The window that starts where the reading stands goes on with it. -/
theorem Covers.next {read start : List K} (hk : (l.map key).Nodup) (within : start.Subperm (l.map key))
    (h : Covers read start (l.map key)) :
    Covers (read ++ (page (sortDesc key l) read.length n).map key) start (l.map key) := by
  intro k started
  have mem : k ∈ l.map key := within.subset started
  rcases h k started with before | behind
  · exact .inl (List.mem_append_left _ before)
  · rcases Nat.lt_or_ge (keyRank (l.map key) k) (read.length + n) with inside | beyond
    · exact .inl (List.mem_append_right _ ((mem_page_keys hk).mpr ⟨mem, behind, inside⟩))
    · refine .inr ?_
      rw [List.length_append, List.length_map, length_page]
      omega

/-- A window that comes short ends the reading. -/
theorem Covers.short {read start : List K} (hk : (l.map key).Nodup) (within : start.Subperm (l.map key))
    (h : Covers read start (l.map key)) (short : (page (sortDesc key l) read.length n).length < n) :
    ∀ k ∈ start, k ∈ read ++ (page (sortDesc key l) read.length n).map key := by
  intro k started
  rcases h.next hk within k started with inside | beyond
  · exact inside
  · have below := keyRank_lt_length (within.subset started)
    rw [length_page, length_sortDesc] at short
    rw [List.length_append, List.length_map, length_page, length_sortDesc] at beyond
    rw [List.length_map] at below
    omega

theorem covers_nil (start now : List K) : Covers [] start now := fun _ _ => .inr (Nat.zero_le _)

end Ranked
