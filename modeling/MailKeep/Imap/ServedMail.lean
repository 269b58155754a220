import MailKeep.Imap.PassRules

/-! A mailbox as one server has it under one UIDVALIDITY, and how far a scan of it comes. -/
namespace MailKeep

structure Mail where
  uid : U32
  body : Bytes
  internalDate : DateTimeUtc
  flags : List Flag
deriving DecidableEq

def Mail.fetch (m : Mail) : Fetch := ⟨some m.uid, some m.body, some m.internalDate, m.flags⟩

/-- The mail with UIDs from `a` on and below `n`. -/
def between (mails : List Mail) (a n : Nat) : List Mail := mails.filter fun m =>
    a ≤ m.uid.val && decide (m.uid.val < n)

structure Ascending (mails : List Mail) : Prop where
  sorted : mails.Pairwise fun m m' => m.uid.val < m'.uid.val
  positive : ∀ m ∈ mails, 0 < m.uid.val

/-- The answers to a FETCH, all of them or so many with an error after them. -/
def answersFor (mails : List Mail) : Option (Nat × ImapError) → List (Except ImapError Fetch)
  | none => mails.map fun m => .ok m.fetch
  | some (k, e) => ((mails.take k).map fun m => .ok m.fetch) ++ [.error e]

def storeAll (computeHash : Bytes → ContentHash) (accountId : AccountId) (mails : List Mail)
    (blobs : AccountId → ContentHash → Option Bytes) : AccountId → ContentHash → Option Bytes :=
  mails.foldl (fun store m => placeBlob store accountId (computeHash m.body) m.body) blobs

/-- Where a scan stops that fetches its next window from `fromUid` on. -/
inductive ScanEnds (upper : Option U32) (mails : List Mail) : U32 → U32 → Prop
  | last {fromUid : U32} (stop : lastWindow upper (windowEnd upper fromUid)
        (!(between mails fromUid.val ((windowEnd upper fromUid).val + 1)).isEmpty) = true) :
      ScanEnds upper mails fromUid (windowEnd upper fromUid)
  | next {fromUid e : U32} (more : lastWindow upper (windowEnd upper fromUid)
        (!(between mails fromUid.val ((windowEnd upper fromUid).val + 1)).isEmpty) = false)
      (rest : ScanEnds upper mails ((windowEnd upper fromUid).saturatingAdd 1) e) : ScanEnds upper mails fromUid e

section
variable {mails rest : List Mail} {m : Mail} {a k n : Nat} {upper : Option U32} {fromUid e e' : U32}

theorem mem_between : m ∈ between mails a n ↔ m ∈ mails ∧ a ≤ m.uid.val ∧ m.uid.val < n := by
  simp [between]

theorem between_empty (h : n ≤ a) : between mails a n = [] := by
  apply List.filter_eq_nil_iff.mpr
  intro m _
  simp only [Bool.and_eq_true, decide_eq_true_eq]
  omega

theorem between_append (ascending : mails.Pairwise fun m m' => m.uid.val < m'.uid.val) (han : a ≤ n) (hnk : n ≤ k) :
    between mails a n ++ between mails n k = between mails a k := by
  induction mails with
  | nil => rfl
  | cons x mails ih =>
    obtain ⟨first, ascending⟩ := List.pairwise_cons.mp ascending
    have ih := ih ascending
    unfold between at ih ⊢
    by_cases early : x.uid.val < n
    · by_cases before : a ≤ x.uid.val
      · rw [List.filter_cons_of_pos (by simp [early, before]), List.filter_cons_of_neg (by simp; omega),
          List.filter_cons_of_pos (by simp; omega), List.cons_append, ih]
      · rw [List.filter_cons_of_neg (by simp [before]), List.filter_cons_of_neg (by simp; omega),
          List.filter_cons_of_neg (by simp [before]), ih]
    · -- all that follow are later still
      have none : mails.filter (fun m => a ≤ m.uid.val && decide (m.uid.val < n)) = [] := by
        apply List.filter_eq_nil_iff.mpr
        intro y hy
        have := first y hy
        simp only [Bool.and_eq_true, decide_eq_true_eq]
        omega
      rw [none, List.nil_append] at ih
      rw [List.filter_cons_of_neg (by simp; omega), none, List.nil_append]
      by_cases inside : x.uid.val < k
      · rw [List.filter_cons_of_pos (by simp; omega), List.filter_cons_of_pos (by simp; omega), ih]
      · rw [List.filter_cons_of_neg (by simp; omega), List.filter_cons_of_neg (by simp; omega), ih]

/-- The first mail of a window, and the window after it. -/
theorem between_cons (ascending : mails.Pairwise fun m m' => m.uid.val < m'.uid.val)
    (h : between mails n k = m :: rest) :
    (n ≤ m.uid.val ∧ m.uid.val < k) ∧ m ∈ mails ∧ between mails n (m.uid.val + 1) = [m] ∧
      between mails (m.uid.val + 1) k = rest := by
  obtain ⟨hm, low, high⟩ := mem_between.mp (h ▸ List.mem_cons_self : m ∈ between mails n k)
  have later : ∀ x ∈ rest, m.uid.val < x.uid.val := by
    have sorted : (between mails n k).Pairwise fun m m' => m.uid.val < m'.uid.val :=
      ascending.sublist List.filter_sublist
    rw [h] at sorted
    exact (List.pairwise_cons.mp sorted).1
  have split := between_append ascending (show n ≤ m.uid.val + 1 by omega) (show m.uid.val + 1 ≤ k by omega)
  rw [h] at split
  refine ⟨⟨low, high⟩, hm, ?_⟩
  cases early : between mails n (m.uid.val + 1) with
  | nil =>
    cases early ▸ mem_between.mpr ⟨hm, low, Nat.lt_succ_self _⟩
  | cons x early' =>
    rw [early, List.cons_append, List.cons.injEq] at split
    obtain ⟨rfl, tail⟩ := split
    cases early' with
    | nil => exact ⟨rfl, tail⟩
    | cons y early' =>
      have inside := (mem_between.mp (early ▸ List.mem_cons_of_mem _ List.mem_cons_self : y ∈ between mails n (x.uid.val + 1))).2.2
      have := later y (tail ▸ List.mem_append_left _ List.mem_cons_self)
      omega

theorem answersFor_nil {fault : Option (Nat × ImapError)} (h : answersFor mails fault = []) : mails = [] := by
  cases fault with
  | none => exact List.map_eq_nil_iff.mp h
  | some f => cases (List.append_eq_nil_iff.mp h).2

/-- The first answer is the first mail. -/
theorem answersFor_cons {fault : Option (Nat × ImapError)} {f : Fetch} {items : List (Except ImapError Fetch)}
    (h : answersFor mails fault = .ok f :: items) :
    ∃ m rest fault', mails = m :: rest ∧ m.fetch = f ∧ answersFor rest fault' = items := by
  cases mails with
  | nil =>
    rcases fault with _ | ⟨k, e⟩
    · cases h
    · rw [answersFor, List.take_nil] at h
      cases h
  | cons m rest =>
    rcases fault with _ | ⟨_ | k, e⟩
    · cases h
      exact ⟨m, rest, none, rfl, rfl, rfl⟩
    · cases h
    · cases h
      exact ⟨m, rest, some (k, e), rfl, rfl, rfl⟩

section
variable {computeHash : Bytes → ContentHash} {accountId a : AccountId}
    {blobs : AccountId → ContentHash → Option Bytes}
  {key : ContentHash} {bytes plaintext : Bytes}

theorem placeBlob_kept (h : blobs a key = some bytes) (k : ContentHash) :
    placeBlob blobs accountId k plaintext a key = some bytes := by
  unfold placeBlob
  rw [h]
  split <;> rfl

theorem placeBlob_other {k : ContentHash} (h : k ≠ key) :
    placeBlob blobs accountId k plaintext a key = blobs a key :=
  if_neg fun same => h same.2.symm

private theorem storeAll_cons : storeAll computeHash accountId (m :: mails) blobs =
    storeAll computeHash accountId mails (placeBlob blobs accountId (computeHash m.body) m.body) := rfl

theorem storeAll_kept (h : blobs a key = some bytes) : storeAll computeHash accountId mails blobs a key = some bytes := by
  induction mails generalizing blobs with
  | nil => exact h
  | cons m mails ih =>
    rw [storeAll_cons]
    exact ih (placeBlob_kept h _)

/-- A hash that is new comes with the first mail that has it. -/
theorem storeAll_first (ascending : mails.Pairwise fun m m' => m.uid.val < m'.uid.val) (hm : m ∈ mails)
    (new : blobs accountId (computeHash m.body) = none)
    (first : ∀ m' ∈ mails, m'.uid.val < m.uid.val → computeHash m'.body ≠ computeHash m.body) :
    storeAll computeHash accountId mails blobs accountId (computeHash m.body) = some m.body := by
  induction mails generalizing blobs with
  | nil => cases hm
  | cons x mails ih =>
    obtain ⟨below, ascending⟩ := List.pairwise_cons.mp ascending
    rw [storeAll_cons]
    rcases List.mem_cons.mp hm with rfl | hm
    · have placed : placeBlob blobs accountId (computeHash m.body) m.body accountId
        (computeHash m.body) = some m.body := by
        rw [placeBlob, if_pos ⟨rfl, rfl⟩, new, Option.getD_none]
      exact storeAll_kept placed
    · have still : placeBlob blobs accountId (computeHash x.body) x.body accountId (computeHash m.body) = none := by
        rw [placeBlob_other (first x List.mem_cons_self (below m hm)), new]
      exact ih ascending hm still fun m' hm' => first m' (List.mem_cons_of_mem _ hm')

end

theorem ScanEnds.unique (h : ScanEnds upper mails fromUid e) (h' : ScanEnds upper mails fromUid e') : e = e' := by
  induction h with
  | last stop =>
    cases h' with
    | last _ => rfl
    | next more _ => cases stop.symm.trans more
  | next more _ ih =>
    cases h' with
    | last stop => cases stop.symm.trans more
    | next _ rest => exact ih rest

/-- Every scan has its end. -/
theorem ScanEnds.exists (upper : Option U32) (mails : List Mail) (fromUid : U32) :
    ∃ e, ScanEnds upper mails fromUid e := by
  induction h : 4294967296 - fromUid.val using Nat.strong_induction_on generalizing fromUid with
  | h n ih =>
    cases more : lastWindow upper (windowEnd upper fromUid)
        (!(between mails fromUid.val ((windowEnd upper fromUid).val + 1)).isEmpty) with
    | true => exact ⟨_, .last more⟩
    | false =>
      have later := (windowEnd_next more).2
      have bound := ((windowEnd upper fromUid).saturatingAdd 1).isLt
      obtain ⟨e, rest⟩ := ih _ (by omega) ((windowEnd upper fromUid).saturatingAdd 1) rfl
      exact ⟨e, .next more rest⟩

theorem val_windowEnd_some (u fromUid : U32) : (windowEnd (some u) fromUid).val = min
    (min (fromUid.val + 199) 4294967295) u.val := by
  have batch : (fromUid.saturatingAdd (FETCH_BATCH - 1)).val = min (fromUid.val + 199) 4294967295 := rfl
  rw [← batch]
  rcases le_total (fromUid.saturatingAdd (FETCH_BATCH - 1)) u with h | h
  · rw [windowEnd, min_eq_left h, min_eq_left (Fin.le_def.mp h)]
  · rw [windowEnd, min_eq_right h, min_eq_right (Fin.le_def.mp h)]

private theorem windowEnd_le_next {fetchedAny : Bool}
    (more : lastWindow upper (windowEnd upper fromUid) fetchedAny = false) :
    windowEnd upper fromUid ≤ windowEnd upper ((windowEnd upper fromUid).saturatingAdd 1) := by
  obtain ⟨size, next⟩ := windowEnd_next more
  rw [Fin.le_def]
  cases upper with
  | some u =>
    have here := val_windowEnd_some u fromUid
    have there := val_windowEnd_some u ((windowEnd (some u) fromUid).saturatingAdd 1)
    omega
  | none =>
    have := @windowEnd_le_max ((windowEnd none fromUid).saturatingAdd 1)
    omega

theorem ScanEnds.window_le (h : ScanEnds upper mails fromUid e) : windowEnd upper fromUid ≤ e := by
  induction h with
  | last _ => exact le_rfl
  | next more _ ih => exact (windowEnd_le_next more).trans ih

/-- With UIDNEXT known every scan ends at the same UID. -/
theorem ScanEnds.known {u : U32} (h : ScanEnds (some u) mails fromUid e) : e = u := by
  induction h with
  | last stop => exact le_antisymm (min_le_right _ _) (of_decide_eq_true stop)
  | next _ _ ih => exact ih

end
end MailKeep
