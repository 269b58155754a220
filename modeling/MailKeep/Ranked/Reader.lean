import MailKeep.Ranked.Page

/-! A reader that asks for page after page until one comes short. -/
namespace Ranked
variable {α : Type}

/-- What has been read, and whether a short page ended it. -/
structure Reader (α : Type) where
  rows : List α
  ended : Bool

/-- The reader after `n` requests, where `pages` answers them by number. -/
def readPages (pages : Nat → List α) (size : Nat) : Nat → Reader α
  | 0 => ⟨[], false⟩
  | n + 1 =>
    let reader := readPages pages size n
    if reader.ended then reader else ⟨reader.rows ++ pages n, decide ((pages n).length < size)⟩

variable {pages : Nat → List α} {size : Nat}

theorem readPages_ended {n m : Nat} (h : (readPages pages size n).ended = true) (le : n ≤ m) :
    readPages pages size m = readPages pages size n := by
  induction m, le using Nat.le_induction with
  | base => rfl
  | succ m _ ih => rw [readPages, ih, h, if_pos rfl]

variable (pages size) in
/-- Nothing read is taken back. -/
theorem readPages_isPrefix {n m : Nat} (le : n ≤ m) : (readPages pages size n).rows <+:
    (readPages pages size m).rows := by
  induction m, le using Nat.le_induction with
  | base => exact List.prefix_rfl
  | succ m _ ih =>
    apply ih.trans
    rw [readPages]
    split
    · exact List.prefix_rfl
    · exact List.prefix_append _ _

/-- Full pages that are slices of one list add up to its beginning. -/
theorem readPages_slices {l : List α} {n : Nat} (slices : ∀ k < n, pages k = page l (k * size) size)
    (full : n * size ≤ l.length) : readPages pages size n = ⟨l.take (n * size), false⟩ := by
  induction n with
  | zero => simp [readPages]
  | succ n ih =>
    rw [Nat.succ_mul] at full
    have length : (pages n).length = size := by
      rw [slices n n.lt_succ_self, page, List.length_take, List.length_drop]
      omega
    rw [readPages, ih (fun k hk => slices k (hk.trans n.lt_succ_self)) (by omega), length, slices n n.lt_succ_self]
    simp [page, Nat.succ_mul, List.take_add]

/-- Request `k` is answered from a window onto the beginning of the list. -/
structure Windows (pages : Nat → List α) (size : Nat) (l : List α) (window : Nat → List α) : Prop where
  within : ∀ k, window k <+: l
  grows : ∀ k, (window k).length ≤ (window (k + 1)).length
  served : ∀ k, k * size ≤ l.length → pages k = page (window k) (k * size) size

namespace Windows
variable {l : List α} {window : Nat → List α}

theorem slice (w : Windows pages size l window) {k : Nat} (full : (k + 1) * size ≤ (window k).length) :
    pages k = page l (k * size) size := by
  have le := (w.within k).length_le
  rw [Nat.succ_mul] at full
  rw [w.served k (by omega)]
  apply (page_isPrefix (w.within k) _ _).eq_of_length
  simp only [page, List.length_take, List.length_drop]
  omega

/-- Behind full pages stands the beginning of the list. -/
theorem read_full (w : Windows pages size l window) {n : Nat} (full : ∀ k < n, (k + 1) * size ≤ (window k).length) :
    readPages pages size n = ⟨l.take (n * size), false⟩ := by
  apply readPages_slices (fun k hk => w.slice (full k hk))
  cases n with
  | zero => simp
  | succ n => exact (full n n.lt_succ_self).trans (w.within n).length_le

/-- The first short page leaves what its window shows. -/
theorem read_short (w : Windows pages size l window) {n : Nat} (full : ∀ k < n, (k + 1) * size ≤ (window k).length)
    (short : (window n).length < (n + 1) * size) : readPages pages size (n + 1) = ⟨window n, true⟩ := by
  have le := (w.within n).length_le
  have reached : n * size ≤ (window n).length := by
    cases n with
    | zero => simp
    | succ n => exact (full n n.lt_succ_self).trans (w.grows n)
  rw [Nat.succ_mul] at short
  have slice : pages n = (window n).drop (n * size) := by
    rw [w.served n (by omega), page, List.take_of_length_le (by simp; omega)]
  have begin : l.take (n * size) = (window n).take (n * size) := by
    obtain ⟨rest, rfl⟩ := w.within n
    rw [List.take_append_of_le_length reached]
  rw [readPages, w.read_full full, slice, begin]
  simp
  omega

/-- The reader ends, and it ends with the window that was first too short. -/
theorem ends (w : Windows pages size l window) (pos : 0 < size) :
    ∃ n, (∀ k < n, (k + 1) * size ≤ (window k).length) ∧ (window n).length < (n + 1) * size := by
  have stops : ∃ n, (window n).length < (n + 1) * size := by
    refine ⟨l.length, (w.within _).length_le.trans_lt ?_⟩
    exact l.length.lt_succ_self.trans_le (Nat.le_mul_of_pos_right _ pos)
  classical
  exact ⟨Nat.find stops, fun k hk => not_lt.mp (Nat.find_min stops hk), Nat.find_spec stops⟩

end Windows
end Ranked
