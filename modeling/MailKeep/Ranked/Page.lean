import Mathlib.Data.List.Infix
import Mathlib.Data.List.Sort
import Mathlib.Data.Prod.Lex

/-! Lists ranked by a key, highest first, and the windows cut out of them. -/
namespace Ranked
variable {α K : Type} [LinearOrder K]

/-- Highest key first; rows of equal key stay in their order. -/
def sortDesc (key : α → K) (l : List α) : List α := l.insertionSort fun a b => key b ≤ key a

/-- Skip `offset` rows and take the next `limit`. -/
def page (l : List α) (offset limit : Nat) : List α := (l.drop offset).take limit

/-- How many rows of `l` rank strictly above `x`. -/
def rank (key : α → K) (l : List α) (x : α) : Nat := l.countP fun y => key x < key y

@[simp] theorem mem_sortDesc {key : α → K} {l : List α} {x : α} : x ∈ sortDesc key l ↔ x ∈ l :=
  List.mem_insertionSort _

@[simp] theorem length_sortDesc (key : α → K) (l : List α) : (sortDesc key l).length = l.length :=
  List.length_insertionSort _ _

theorem sortDesc_pairwise (key : α → K) (l : List α) :
    (sortDesc key l).Pairwise fun a b => key b ≤ key a := by
  have : Std.Total fun a b : α => key b ≤ key a := ⟨fun a b => le_total (key b) (key a)⟩
  have : IsTrans α fun a b => key b ≤ key a := ⟨fun _ _ _ hab hbc => hbc.trans hab⟩
  exact List.pairwise_insertionSort _ l

theorem sortDesc_perm (key : α → K) (l : List α) : (sortDesc key l).Perm l := List.perm_insertionSort _ l

/-- A ranked list stays as it is. -/
theorem sortDesc_eq_self {key : α → K} {l : List α} (ranked : l.Pairwise fun a b => key b ≤ key a) :
    sortDesc key l = l :=
  ranked.insertionSort_eq

/-- Nothing ranks above the head. -/
theorem le_of_head_sortDesc {key : α → K} {l : List α} {x y : α} (h : (sortDesc key l).head? = some x)
    (hy : y ∈ l) :
    key y ≤ key x := by
  obtain ⟨rest, sorted⟩ := List.head?_eq_some_iff.mp h
  have ranked := sortDesc_pairwise key l
  rw [sorted] at ranked
  rcases List.mem_cons.mp (sorted ▸ mem_sortDesc.mpr hy) with rfl | later
  · exact le_rfl
  · exact (List.pairwise_cons.mp ranked).1 y later

/-- Distinct keys make the ranking strict. -/
theorem sortDesc_strict {key : α → K} {l : List α} (hk : (l.map key).Nodup) :
    (sortDesc key l).Pairwise fun a b => key b < key a := by
  have hp : ((sortDesc key l).map key).Nodup := ((List.perm_insertionSort _ l).map key).nodup_iff.mpr hk
  have hne : (sortDesc key l).Pairwise fun a b => key a ≠ key b := List.pairwise_map.mp hp
  exact ((sortDesc_pairwise key l).and hne).imp fun h => lt_of_le_of_ne h.1 (Ne.symm h.2)

/-- With distinct keys the ranking does not depend on the order the rows came in. -/
theorem sortDesc_eq_of_perm {key : α → K} {l l' : List α} (hp : l.Perm l') (hk : (l.map key).Nodup) :
    sortDesc key l = sortDesc key l' := by
  have hk' : (l'.map key).Nodup := (hp.map key).nodup_iff.mp hk
  refine List.Perm.eq_of_pairwise ?_ (sortDesc_strict hk) (sortDesc_strict hk')
    ((List.perm_insertionSort _ l).trans (hp.trans (List.perm_insertionSort _ l').symm))
  intro a b _ _ hab hba
  exact absurd hab (not_lt_of_gt hba)

/-- With distinct keys ranking a selection is selecting from the ranking. -/
theorem sortDesc_filter {key : α → K} {l : List α} (hk : (l.map key).Nodup) (p : α → Bool) :
    sortDesc key (l.filter p) = (sortDesc key l).filter p := by
  have selected : ((l.filter p).map key).Nodup := hk.sublist (List.filter_sublist.map _)
  refine List.Perm.eq_of_pairwise ?_ (sortDesc_strict selected) ((sortDesc_strict hk).filter p)
    ((sortDesc_perm key _).trans ((sortDesc_perm key l).filter p).symm)
  intro a b _ _ hab hba
  exact absurd hab (not_lt_of_gt hba)

theorem mem_of_mem_page {l : List α} {o n : Nat} {x : α} (h : x ∈ page l o n) : x ∈ l :=
  List.mem_of_mem_drop (List.mem_of_mem_take h)

/-- A window of a prefix is a prefix of the window. -/
theorem page_isPrefix {l l' : List α} (h : l <+: l') (o n : Nat) : page l o n <+: page l' o n := (h.drop o).take n

/-- A window does not see what lies behind it. -/
theorem page_take {l : List α} {o n k : Nat} (h : o + n ≤ k) : page (l.take k) o n = page l o n := by
  rw [page, page, List.drop_take, List.take_take, min_eq_left (by omega)]

theorem mem_page_iff_getElem {l : List α} {o n : Nat} {x : α} :
    x ∈ page l o n ↔ ∃ i, o ≤ i ∧ i < o + n ∧ l[i]? = some x := by
  rw [page, List.mem_iff_getElem?]
  constructor
  · rintro ⟨i, hi⟩
    rw [List.getElem?_take] at hi
    split at hi
    · exact ⟨o + i, by omega, by omega, by simpa using hi⟩
    · cases hi
  · rintro ⟨i, ho, hn, hi⟩
    refine ⟨i - o, ?_⟩
    rw [List.getElem?_take_of_lt (by omega), List.getElem?_drop, Nat.add_sub_cancel' ho, hi]

/-- In a strictly ranked list a row's position is the number of rows above it. -/
theorem rank_of_pairwise {key : α → K} {l : List α} (h : l.Pairwise fun a b => key b < key a)
    {i : Nat} {x : α} (hi : l[i]? = some x) : rank key l x = i := by
  induction l generalizing i with
  | nil => simp at hi
  | cons a l ih =>
    rw [List.pairwise_cons] at h
    cases i with
    | zero =>
      obtain rfl : a = x := by simpa using hi
      have hz : l.countP (fun y => key a < key y) = 0 := by
        rw [List.countP_eq_zero]
        intro y hy
        simpa using (h.1 y hy).le
      simp [rank, hz]
    | succ i =>
      have hx : l[i]? = some x := by simpa using hi
      have ha : key x < key a := h.1 x (List.mem_of_getElem? hx)
      have := ih h.2 hx
      simp only [rank] at this
      simp [rank, ha, this]

/-- Which rows a window of a strictly ranked list shows. -/
theorem mem_page_sortDesc {key : α → K} {l : List α} (hk : (l.map key).Nodup) {o n : Nat} {x : α} :
    x ∈ page (sortDesc key l) o n ↔ x ∈ l ∧ o ≤ rank key l x ∧ rank key l x < o + n := by
  have hs := sortDesc_strict hk
  have hr : rank key (sortDesc key l) x = rank key l x :=
    (List.perm_insertionSort (fun a b => key b ≤ key a) l).countP_eq _
  rw [mem_page_iff_getElem]
  constructor
  · rintro ⟨i, ho, hn, hi⟩
    have := rank_of_pairwise hs hi
    exact ⟨mem_sortDesc.mp (List.mem_of_getElem? hi), by omega, by omega⟩
  · rintro ⟨hx, ho, hn⟩
    obtain ⟨i, hi⟩ := List.mem_iff_getElem?.mp ((mem_sortDesc : x ∈ sortDesc key l ↔ x ∈ l).mpr hx)
    have := rank_of_pairwise hs hi
    exact ⟨i, by omega, by omega, hi⟩

end Ranked
