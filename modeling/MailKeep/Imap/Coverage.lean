import MailKeep.Imap.View
import MailKeep.Program.Trace

/-! What a pass over a mailbox that answers honestly has ingested, at each of its steps and at its end. -/
namespace MailKeep
open Program Backend

abbrev MailboxContent := U32 → Option Bytes

def MailboxContent.Has (mail : MailboxContent) (uid : U32) : Prop := (mail uid).isSome

/-- The range of a FETCH; a server reads its two ends in either order. -/
def InRange (a b uid : U32) : Prop := min a b ≤ uid ∧ uid ≤ max a b

instance (a b uid : U32) : Decidable (InRange a b uid) := inferInstanceAs (Decidable (_ ∧ _))

/-- Exactly the existing UIDs of the range, in any order, each with its body. -/
structure Answers (mail : MailboxContent) (a b : U32) (fetches : List Fetch) : Prop where
  sound : ∀ f ∈ fetches, ∃ uid body, f.uid = some uid ∧ f.body = some body ∧ InRange a b uid ∧ mail uid = some body
  complete : ∀ uid, InRange a b uid → mail.Has uid → ∃ f ∈ fetches, f.uid = some uid
  distinct : (fetches.map Fetch.uid).Nodup

/-- The whole answer, or a part of it up to an error of the stream. -/
def Delivered (mail : MailboxContent) (a b : U32) (items : List (Except ImapError Fetch)) : Prop :=
  ∃ fetches, Answers mail a b fetches ∧
    (items = fetches.map .ok ∨ ∃ k e, items = (fetches.take k).map .ok ++ [.error e])

/-- SELECT reports the mailbox and FETCH answers from it, or they fail; anything else may happen. -/
def honest {computeHash : Bytes → ContentHash} (mail : MailboxContent) (uidvalidity : U32) (uidNext : Option U32) :
    (backend computeHash).Allowed
  | _, .select _, .ok mailbox => mailbox = ⟨some uidvalidity, uidNext⟩
  | _, .uidFetch _ _ a b, .ok items => Delivered mail a b items
  | _, _, _ => True

/-- The cursor of a pass: the configured one, or 0 after a detected rollover. -/
def startCursor (folder : FolderConfig) (uidvalidity : U32) : U32 :=
  if folder.rolledOver uidvalidity then 0 else folder.lastUid

/-- The message of the UID was handed to `ingest_raw` under its account, folder and UIDVALIDITY, which returned `Ok`. -/
def Ingested (computeHash : Bytes → ContentHash) (mail : MailboxContent) (accountId : AccountId) (folder : FolderConfig)
    (uidvalidity uid : U32) (log : List Event) : Prop :=
  ∃ payload, .ingested payload ∈ log ∧ payload.accountId = accountId ∧ payload.folderId = folder.id ∧
    payload.uidvalidity = uidvalidity ∧ payload.uid = uid ∧ ∃ body, mail uid = some body ∧
      payload.contentHash = computeHash body

theorem Ingested.cons {computeHash : Bytes → ContentHash} {mail : MailboxContent} {accountId : AccountId}
    {folder : FolderConfig} {uidvalidity uid : U32} {log : List Event} (e : Event)
    (h : Ingested computeHash mail accountId folder uidvalidity uid log) :
    Ingested computeHash mail accountId folder uidvalidity uid (e :: log) := by
  obtain ⟨payload, hm, hp⟩ := h
  exact ⟨payload, List.mem_cons_of_mem e hm, hp⟩

/-- Every existing UID above the cursor `c` and up to `h` was ingested. -/
def Covered (computeHash : Bytes → ContentHash) (mail : MailboxContent) (accountId : AccountId) (folder : FolderConfig)
    (uidvalidity c h : U32) (log : List Event) : Prop :=
  ∀ uid, mail.Has uid → c < uid → uid ≤ h → Ingested computeHash mail accountId folder uidvalidity uid log

/-- The end of the last window that was fetched, the cursor before the first. -/
def fetchedTo (c : U32) : List Event → U32
  | [] => c
  | .fetched _ _ b :: _ => b
  | _ :: log => fetchedTo c log

/-- Each window starts right after the last one and ends below `uidNext`. -/
def Tiled (c uidNext : U32) (log : List Event) : Prop :=
  Always (fun e earlier => ∀ folderId a b, e = .fetched folderId a b →
    a.val = (fetchedTo c earlier).val + 1 ∧ a ≤ b ∧ b.val ≤ a.val + 199 ∧ b.val < uidNext.val) log

/-- Some existing UID lies in the `k`-th batch above the cursor. -/
def FullWindow (mail : MailboxContent) (c : U32) (k : Nat) : Prop :=
  ∃ uid, mail.Has uid ∧ c.val + 200 * k < uid.val ∧ uid.val ≤ c.val + 200 * (k + 1)

section Walk
variable {computeHash : Bytes → ContentHash} {mail : MailboxContent} {uidvalidity : U32} {uidNext : Option U32}
  {accountId : AccountId} {folder : FolderConfig} {rows : Keyed.Table Folder.id} {c : U32}

/-- At every step: a row of the folder that is not one of the old ones covers what was ingested,
and where UIDNEXT is known the windows tile. -/
structure Checkpointed (computeHash : Bytes → ContentHash) (accountId : AccountId) (mail : MailboxContent)
    (uidvalidity : U32) (uidNext : Option U32) (folder : FolderConfig)
    (rows : Keyed.Table Folder.id) (c : U32) (v : SyncView) : Prop where
  row : ∀ f ∈ v.folders, f.id = folder.id → f ∈ rows ∨
    Covered computeHash mail accountId folder uidvalidity c f.lastUid v.log
  tiled : ∀ n, uidNext = some n → Tiled c n v.log

theorem Checkpointed.push {v : SyncView} {e : Event}
    (h : Checkpointed computeHash accountId mail uidvalidity uidNext folder rows c v)
    (he : ∀ n, uidNext = some n → ∀ folderId a b, e = .fetched folderId a b →
      a.val = (fetchedTo c v.log).val + 1 ∧ a ≤ b ∧ b.val ≤ a.val + 199 ∧ b.val < n.val) :
    Checkpointed computeHash accountId mail uidvalidity uidNext folder rows c (v.push e) where
  row := fun f hf hid => (h.row f hf hid).imp_right fun hc uid h1 h2 h3 => (hc uid h1 h2 h3).cons e
  tiled := fun n hn => (h.tiled n hn).push (he n hn)

theorem Checkpointed.persist {v : SyncView} {lastUid : U32} {now : DateTimeUtc}
    (h : Checkpointed computeHash accountId mail uidvalidity uidNext folder rows c v)
    (hc : Covered computeHash mail accountId folder uidvalidity c lastUid v.log) :
    Checkpointed computeHash accountId mail uidvalidity uidNext folder rows c
      (v.persist folder.id uidvalidity lastUid now) where
  row := by
    intro f hf hid
    obtain ⟨g, hg, rfl⟩ := SyncView.mem_persist.mp hf
    right
    by_cases hgid : g.id = folder.id
    · rw [if_pos hgid]
      exact fun uid h1 h2 h3 => (hc uid h1 h2 h3).cons _
    · rw [if_neg hgid] at hid
      exact absurd hid hgid
  tiled := fun n hn => (h.tiled n hn).push fun _ _ _ he => by cases he

/-- Before a window: everything below it is ingested, nothing at or above it. -/
structure Swept (computeHash : Bytes → ContentHash) (accountId : AccountId) (mail : MailboxContent)
    (uidvalidity : U32) (uidNext : Option U32) (folder : FolderConfig)
    (c fromUid : U32) (p : Progress) (v : SyncView) : Prop where
  below : c < fromUid
  covered : ∀ uid, mail.Has uid → c < uid → uid < fromUid →
    Ingested computeHash mail accountId folder uidvalidity uid v.log
  bounded : ∀ uid, Ingested computeHash mail accountId folder uidvalidity uid v.log → uid < fromUid
  fetched : (fetchedTo c v.log).val + 1 = fromUid.val
  high : p.high < fromUid ∧ (p.ingested = 0 → p.high = c)
  reach : ∀ n, uidNext = some n → fromUid ≤ n.saturatingSub 1
  windows : uidNext = none → ∃ j, fromUid.val = c.val + 1 + 200 * j ∧ ∀ k < j, FullWindow mail c k

/-- Inside a window, with `items` still to be read. -/
structure Reads (computeHash : Bytes → ContentHash) (accountId : AccountId) (mail : MailboxContent)
    (uidvalidity : U32) (folder : FolderConfig) (c fromUid toUid : U32)
    (items : List (Except ImapError Fetch)) (p : Progress) (v : SyncView) : Prop where
  covered : ∀ uid, mail.Has uid → c < uid → uid < fromUid →
    Ingested computeHash mail accountId folder uidvalidity uid v.log
  bounded : ∀ uid, Ingested computeHash mail accountId folder uidvalidity uid v.log → uid ≤ toUid
  fetched : fetchedTo c v.log = toUid
  high : p.high ≤ toUid ∧ (p.ingested = 0 → p.high = c)
  sound : ∀ f, .ok f ∈ items → ∃ uid body, f.uid = some uid ∧ f.body = some body ∧ fromUid ≤ uid ∧ uid ≤ toUid ∧
    mail uid = some body
  rest : ∀ uid, mail.Has uid → fromUid ≤ uid → uid ≤ toUid →
    Ingested computeHash mail accountId folder uidvalidity uid v.log ∧ p.fetchedAny = true ∨
      (∃ f, .ok f ∈ items ∧ f.uid = some uid) ∨ ∃ e, .error e ∈ items
  full : p.fetchedAny = true → ∃ uid, mail.Has uid ∧ fromUid ≤ uid ∧ uid ≤ toUid

structure SweptAll (computeHash : Bytes → ContentHash) (accountId : AccountId) (mail : MailboxContent)
    (uidvalidity : U32) (uidNext : Option U32)
    (folder : FolderConfig) (c : U32)
    (p : Progress) (v : SyncView) : Prop where
  high : p.ingested = 0 → p.high = c
  known : ∀ n, uidNext = some n → Covered computeHash mail accountId folder uidvalidity c (n.saturatingSub 1) v.log ∧
    fetchedTo c v.log = max c (n.saturatingSub 1)
  unknown : uidNext = none →
    ((∀ uid, mail.Has uid → c < uid → Ingested computeHash mail accountId folder uidvalidity uid v.log) ↔
    ∀ uid, mail.Has uid → ∀ k, c.val + 200 * (k + 1) < uid.val → FullWindow mail c k)

theorem ingested_cons {uid : U32} {log : List Event} {e : Event} (he : ∀ payload, e ≠ .ingested payload) :
    Ingested computeHash mail accountId folder uidvalidity uid (e :: log) ↔
      Ingested computeHash mail accountId folder uidvalidity uid log := by
  constructor
  · rintro ⟨payload, hm, hp⟩
    rcases List.mem_cons.mp hm with h | h
    · exact absurd h.symm (he payload)
    · exact ⟨payload, h, hp⟩
  · exact Ingested.cons e

theorem Swept.persist {fromUid lastUid : U32} {p : Progress} {v : SyncView} {now : DateTimeUtc}
    {folderId : FolderId}
    {u : U32} (h : Swept computeHash accountId mail uidvalidity uidNext folder c fromUid p v) :
    Swept computeHash accountId mail uidvalidity uidNext folder c fromUid p (v.persist folderId u lastUid now) where
  below := h.below
  covered := fun uid h1 h2 h3 => (h.covered uid h1 h2 h3).cons _
  bounded := fun uid hi => h.bounded uid ((ingested_cons fun _ he => by cases he).mp hi)
  fetched := h.fetched
  high := h.high
  reach := h.reach
  windows := h.windows

theorem SweptAll.persist {lastUid : U32} {p : Progress} {v : SyncView} {now : DateTimeUtc} {folderId : FolderId}
    {u : U32} (h : SweptAll computeHash accountId mail uidvalidity uidNext folder c p v) :
    SweptAll computeHash accountId mail uidvalidity uidNext folder c p (v.persist folderId u lastUid now) where
  high := h.high
  known := fun n hn => ⟨fun uid h1 h2 h3 => ((h.known n hn).1 uid h1 h2 h3).cons _, (h.known n hn).2⟩
  unknown := fun hn => by
    rw [← h.unknown hn]
    exact forall_congr' fun uid => forall_congr' fun _ => forall_congr' fun _ =>
      ingested_cons fun _ he => by cases he

/-- A FETCH has been answered. -/
theorem Swept.fetch {fromUid toUid : U32} {p : Progress} {v : SyncView} {items : List (Except ImapError Fetch)}
    {folderId : FolderId} (h : Swept computeHash accountId mail uidvalidity uidNext folder c fromUid p v)
      (hle : fromUid ≤ toUid)
    (hd : Delivered mail fromUid toUid items) :
    Reads computeHash accountId mail uidvalidity folder c fromUid toUid items { p with fetchedAny := false }
      (v.push (.fetched folderId fromUid toUid)) := by
  have hrange : ∀ uid, InRange fromUid toUid uid ↔ fromUid ≤ uid ∧ uid ≤ toUid := by
    intro uid
    rw [InRange, min_eq_left hle, max_eq_right hle]
  obtain ⟨fetches, ha, hitems⟩ := hd
  refine ⟨fun uid h1 h2 h3 => (h.covered uid h1 h2 h3).cons _,
    fun uid hi => ?_, rfl, ⟨le_of_lt (lt_of_lt_of_le h.high.1 hle), h.high.2⟩, ?_, ?_, fun he => by cases he⟩
  · exact le_of_lt (lt_of_lt_of_le (h.bounded uid ((ingested_cons fun _ he => by cases he).mp hi)) hle)
  · intro f hf
    have hmem : f ∈ fetches := by
      rcases hitems with rfl | ⟨k, e, rfl⟩
      · simpa using hf
      · rcases List.mem_append.mp hf with hf | hf
        · obtain ⟨g, hg, he⟩ := List.mem_map.mp hf
          cases he
          exact List.mem_of_mem_take hg
        · simp at hf
    obtain ⟨uid, body, hu, hb, hr, hm⟩ := ha.sound f hmem
    obtain ⟨h1, h2⟩ := (hrange uid).mp hr
    exact ⟨uid, body, hu, hb, h1, h2, hm⟩
  · intro uid hm h1 h2
    right
    rcases hitems with rfl | ⟨k, e, rfl⟩
    · obtain ⟨f, hf, hu⟩ := ha.complete uid ((hrange uid).mpr ⟨h1, h2⟩) hm
      exact .inl ⟨f, List.mem_map_of_mem hf, hu⟩
    · exact .inr ⟨e, by simp⟩

/-- One answer has been ingested. -/
theorem Reads.one {fromUid toUid uid : U32} {body : Bytes} {date : Option DateTimeUtc} {flags : List Flag}
    {items : List (Except ImapError Fetch)} {p : Progress} {v : SyncView} {payload : ParseMessageJob}
    (h : Reads computeHash accountId mail uidvalidity folder c fromUid toUid
      (.ok ⟨some uid, some body, date, flags⟩ :: items) p v)
    (hacc : payload.accountId = accountId) (hid : payload.folderId = folder.id) (hu : payload.uid = uid)
    (hv : payload.uidvalidity = uidvalidity) (hc : payload.contentHash = computeHash body) :
    Reads computeHash accountId mail uidvalidity folder c fromUid toUid items ⟨max p.high uid, true, p.ingested + 1⟩
      (v.push (.ingested payload)) := by
  obtain ⟨uid', body', hu', hb', h1, h2, hm⟩ := h.sound _ (List.mem_cons_self ..)
  cases hu'
  cases hb'
  have hnew : Ingested computeHash mail accountId folder uidvalidity uid (v.push (.ingested payload)).log :=
    ⟨payload, List.mem_cons_self .., hacc, hid, hv, hu, body, hm, hc⟩
  refine ⟨fun x h1 h2 h3 => (h.covered x h1 h2 h3).cons _, ?_, h.fetched, ⟨max_le h.high.1 h2, fun h0 => by cases h0⟩,
    fun f hf => h.sound f (List.mem_cons_of_mem _ hf), ?_, fun _ => ⟨uid, ?_, h1, h2⟩⟩
  · rintro x ⟨payload', hmem, hp⟩
    rcases List.mem_cons.mp hmem with he | hmem
    · cases he
      rw [← hp.2.2.2.1, hu]
      exact h2
    · exact h.bounded x ⟨payload', hmem, hp⟩
  · intro x hx hx1 hx2
    rcases h.rest x hx hx1 hx2 with ⟨hi, -⟩ | ⟨f, hf, hfu⟩ | ⟨e, he⟩
    · exact .inl ⟨hi.cons _, rfl⟩
    · rcases List.mem_cons.mp hf with hf | hf
      · cases hf
        cases hfu
        exact .inl ⟨hnew, rfl⟩
      · exact .inr (.inl ⟨f, hf, hfu⟩)
    · rcases List.mem_cons.mp he with he | he
      · cases he
      · exact .inr (.inr ⟨e, he⟩)
  · rw [MailboxContent.Has, hm]
    rfl

/-- After the answers of a window everything up to its end is ingested. -/
theorem Reads.covered_to {fromUid toUid : U32} {p : Progress} {v : SyncView}
    (h : Reads computeHash accountId mail uidvalidity folder c fromUid toUid [] p v) :
      Covered computeHash mail accountId folder uidvalidity c toUid v.log := by
  intro uid hm h1 h2
  by_cases hlt : uid < fromUid
  · exact h.covered uid hm h1 hlt
  · rcases h.rest uid hm (not_lt.mp hlt) h2 with ⟨hi, -⟩ | ⟨f, hf, -⟩ | ⟨e, he⟩
    · exact hi
    · cases hf
    · cases he

theorem Reads.empty {fromUid toUid : U32} {p : Progress} {v : SyncView}
    (h : Reads computeHash accountId mail uidvalidity folder c fromUid toUid [] p v) (hf : p.fetchedAny = false) :
    ∀ uid, mail.Has uid → fromUid ≤ uid → ¬ uid ≤ toUid := by
  intro uid hm h1 h2
  rcases h.rest uid hm h1 h2 with ⟨-, ht⟩ | ⟨f, hf, -⟩ | ⟨e, he⟩
  · rw [hf] at ht
    cases ht
  · cases hf
  · cases he

/-- Without UIDNEXT the scan is complete where every batch below an existing UID has mail. -/
private theorem complete_iff {fromUid toUid : U32} {log : List Event} {j : Nat} (hj : fromUid.val = c.val + 1 + 200 * j)
    (hk : ∀ k < j, FullWindow mail c k) (hto : toUid.val = min (fromUid.val + 199) 4294967295)
    (covered : Covered computeHash mail accountId folder uidvalidity c toUid log)
    (bounded : ∀ uid, Ingested computeHash mail accountId folder uidvalidity uid log → uid ≤ toUid)
    (last : (∀ uid, mail.Has uid → fromUid ≤ uid → ¬ uid ≤ toUid) ∨ toUid = U32.maxValue) :
    (∀ uid, mail.Has uid → c < uid → Ingested computeHash mail accountId folder uidvalidity uid log) ↔
      ∀ uid, mail.Has uid → ∀ k, c.val + 200 * (k + 1) < uid.val → FullWindow mail c k := by
  simp only [Fin.le_def, Fin.lt_def] at *
  constructor
  · intro hall uid hm k hlt
    by_cases hkj : k < j
    · exact hk k hkj
    · have := bounded uid (hall uid hm (by omega))
      omega
  · intro hgap uid hm hc
    by_cases hle : uid.val ≤ toUid.val
    · exact covered uid hm (Fin.lt_def.mpr hc) (Fin.le_def.mpr hle)
    · rcases last with hempty | hmax
      · obtain ⟨uid', hm', h1, h2⟩ := hgap uid hm j (by omega)
        exact absurd (show uid'.val ≤ toUid.val by omega) (hempty uid' hm' (by omega))
      · rw [hmax, U32.val_maxValue] at hle
        omega

/-- After the last window the scan is at its end. -/
private theorem Reads.finish_last {fromUid toUid : U32} {p p' : Progress} {v v' : SyncView}
    (hs : Swept computeHash accountId mail uidvalidity uidNext folder c fromUid p v)
    (hto : toUid = windowEnd (uidNext.map (·.saturatingSub 1)) fromUid) (hle : fromUid ≤ toUid)
    (h : Reads computeHash accountId mail uidvalidity folder c fromUid toUid [] p' v')
    (hl : lastWindow (uidNext.map (·.saturatingSub 1)) toUid p'.fetchedAny = true) :
    SweptAll computeHash accountId mail uidvalidity uidNext folder c p' v' := by
  refine ⟨h.high.2, fun n hn => ?_, fun hn => ?_⟩
  · subst hn
    have hreach := hs.reach n rfl
    have hend : toUid = n.saturatingSub 1 := by
      simp only [Option.map_some, windowEnd, lastWindow, decide_eq_true_eq] at hto hl
      exact le_antisymm (hto ▸ min_le_right _ _) hl
    rw [← hend]
    refine ⟨h.covered_to, h.fetched.trans (max_eq_right ?_).symm⟩
    exact le_of_lt (lt_of_lt_of_le hs.below hle)
  · subst hn
    obtain ⟨j, hj, hk⟩ := hs.windows rfl
    refine complete_iff hj hk ?_ h.covered_to h.bounded ?_
    · rw [hto]
      rfl
    · simp only [Option.map_none, lastWindow, Bool.or_eq_true, Bool.not_eq_true', decide_eq_true_eq] at hl
      exact hl.imp_left h.empty

/-- After any other window the next one is scanned. -/
private theorem Reads.finish_next {fromUid toUid : U32} {p p' : Progress} {v v' : SyncView}
    (hs : Swept computeHash accountId mail uidvalidity uidNext folder c fromUid p v)
    (hto : toUid = windowEnd (uidNext.map (·.saturatingSub 1)) fromUid)
    (h : Reads computeHash accountId mail uidvalidity folder c fromUid toUid [] p' v')
    (hl : lastWindow (uidNext.map (·.saturatingSub 1)) toUid p'.fetchedAny = false) :
    Swept computeHash accountId mail uidvalidity uidNext folder c (toUid.saturatingAdd 1) p' v' := by
  have hbelow := hs.below
  rw [Fin.lt_def] at hbelow
  have hnext := windowEnd_next (hto ▸ hl)
  rw [← hto] at hnext
  have hlast : (toUid.saturatingAdd 1).val = toUid.val + 1 := by omega
  refine ⟨?_, ?_, ?_, ?_, ⟨?_, h.high.2⟩, ?_, ?_⟩
  · rw [Fin.lt_def]
    omega
  · intro uid hm h1 h2
    apply h.covered_to uid hm h1
    rw [Fin.le_def]
    rw [Fin.lt_def] at h2
    omega
  · intro uid hi
    have := h.bounded uid hi
    rw [Fin.le_def] at this
    rw [Fin.lt_def]
    omega
  · rw [h.fetched, hlast]
  · have := h.high.1
    rw [Fin.le_def] at this
    rw [Fin.lt_def]
    omega
  · intro n hn
    subst hn
    simp only [Option.map_some, lastWindow, decide_eq_false_iff_not, Fin.le_def, not_le] at hl ⊢
    omega
  · intro hn
    subst hn
    obtain ⟨j, hj, hk⟩ := hs.windows rfl
    refine ⟨j + 1, by omega, fun k hlt => ?_⟩
    by_cases hkj : k < j
    · exact hk k hkj
    · obtain rfl : k = j := by omega
      have hf : p'.fetchedAny = true := by
        simp only [Option.map_none, lastWindow, Bool.or_eq_false_iff] at hl
        simpa using hl.1
      obtain ⟨uid, hm, h1, h2⟩ := h.full hf
      rw [Fin.le_def] at h1 h2
      exact ⟨uid, hm, by omega, by omega⟩

/-- What the end of a window leads to: the next window, or the end of the scan. -/
theorem Reads.finish {fromUid toUid : U32} {p p' : Progress} {v v' : SyncView}
    (hs : Swept computeHash accountId mail uidvalidity uidNext folder c fromUid p v)
    (hto : toUid = windowEnd (uidNext.map (·.saturatingSub 1)) fromUid) (hle : fromUid ≤ toUid)
    (h : Reads computeHash accountId mail uidvalidity folder c fromUid toUid [] p' v') :
    if lastWindow (uidNext.map (·.saturatingSub 1)) toUid p'.fetchedAny then
      SweptAll computeHash accountId mail uidvalidity uidNext folder c p' v'
    else Swept computeHash accountId mail uidvalidity uidNext folder c (toUid.saturatingAdd 1) p' v' := by
  split
  · rename_i last
    exact h.finish_last hs hto hle last
  · rename_i more
    exact h.finish_next hs hto (Bool.eq_false_of_not_eq_true more)

structure Begun (computeHash : Bytes → ContentHash) (accountId : AccountId) (mail : MailboxContent)
    (folder : FolderConfig) (uidvalidity c : U32) (v : SyncView) : Prop where
  nothing : ∀ uid, ¬ Ingested computeHash mail accountId folder uidvalidity uid v.log
  fetched : fetchedTo c v.log = c

theorem Begun.cons {v : SyncView} {e : Event} {rows' : Keyed.Table Folder.id}
    (h : Begun computeHash accountId mail folder uidvalidity c v)
    (he : ∀ payload, e ≠ .ingested payload) (hf : fetchedTo c (e :: v.log) = fetchedTo c v.log) :
    Begun computeHash accountId mail folder uidvalidity c ⟨rows', e :: v.log⟩ :=
  ⟨fun uid hi => h.nothing uid ((ingested_cons he).mp hi), hf.trans h.fetched⟩

abbrev honestContract (computeHash : Bytes → ContentHash) (accountId : AccountId) (mail : MailboxContent)
    (uidvalidity : U32)
    (uidNext : Option U32) (folder : FolderConfig) (rows : Keyed.Table Folder.id) (c : U32) :
    Contract (backend computeHash) :=
  viewContract (honest mail uidvalidity uidNext)
    (Checkpointed computeHash accountId mail uidvalidity uidNext folder rows c) AnyStep

private theorem Covered.self {log : List Event} : Covered computeHash mail accountId folder uidvalidity c c log :=
  fun _ _ h1 h2 => absurd (lt_of_lt_of_le h1 h2) (lt_irrefl _)

private theorem Begun.swept (hmax : uidNext = none → c < U32.maxValue) {v : SyncView}
    (hb : Begun computeHash accountId mail folder uidvalidity c v)
    (hup : (uidNext.map (·.saturatingSub 1)).any (· < c.saturatingAdd 1) = false) :
    Swept computeHash accountId mail uidvalidity uidNext folder c (c.saturatingAdd 1) ⟨c, false, 0⟩ v := by
  have h1 : (1 : U32).val = 1 := rfl
  have hreach : ∀ n, uidNext = some n → (c.saturatingAdd 1).val ≤ n.val - 1 := by
    intro n hn
    subst hn
    simp only [Option.map_some, Option.any_some, decide_eq_false_iff_not, Fin.lt_def, U32.val_saturatingSub, h1] at hup
    omega
  have hc : c.val < 4294967295 := by
    cases hn : uidNext with
    | none => exact Fin.lt_def.mp (hmax hn)
    | some n =>
      have := hreach n hn
      simp only [U32.val_saturatingAdd, h1] at this
      omega
  have hnext : (c.saturatingAdd 1).val = c.val + 1 := by
    simp only [U32.val_saturatingAdd, h1]
    omega
  refine ⟨?_, ?_, fun uid hi => absurd hi (hb.nothing uid), ?_, ⟨?_, fun _ => rfl⟩, ?_, fun _ => ⟨0, by omega, ?_⟩⟩
  · rw [Fin.lt_def]
    omega
  · intro uid _ h1 h2
    rw [Fin.lt_def] at h1 h2
    omega
  · rw [hb.fetched, hnext]
  · rw [Fin.lt_def]
    change c.val < _
    omega
  · intro n hn
    rw [Fin.le_def]
    exact hreach n hn
  · intro k hk
    omega

theorem Swept.window {fromUid : U32} {p : Progress} {v : SyncView}
    (hs : Swept computeHash accountId mail uidvalidity uidNext folder c fromUid p v) :
    fromUid.val ≤ (windowEnd (uidNext.map (·.saturatingSub 1)) fromUid).val ∧
      (windowEnd (uidNext.map (·.saturatingSub 1)) fromUid).val ≤ fromUid.val + 199 ∧
      ∀ n, uidNext = some n → (windowEnd (uidNext.map (·.saturatingSub 1)) fromUid).val < n.val := by
  have hb : (FETCH_BATCH - 1 : U32).val = 199 := rfl
  have h1 : (1 : U32).val = 1 := rfl
  have hbelow := Fin.lt_def.mp hs.below
  cases uidNext with
  | none =>
    simp only [Option.map_none, windowEnd, U32.val_saturatingAdd, hb]
    exact ⟨by omega, by omega, fun n hn => by cases hn⟩
  | some n =>
    have hreach := Fin.le_def.mp (hs.reach n rfl)
    have hend : (windowEnd (some (n.saturatingSub 1)) fromUid).val =
        min (min (fromUid.val + 199) 4294967295) (n.val - 1) := by
      rcases le_total (fromUid.saturatingAdd (FETCH_BATCH - 1)) (n.saturatingSub 1) with hle | hle <;>
        rw [windowEnd] <;> simp only [min_eq_left, min_eq_right, hle] <;>
        simp only [Fin.le_def, U32.val_saturatingAdd, U32.val_saturatingSub, hb, h1] at hle ⊢ <;> omega
    simp only [Option.map_some, U32.val_saturatingSub, h1] at hreach ⊢
    rw [hend]
    refine ⟨by omega, by omega, ?_⟩
    rintro _ ⟨⟩
    omega

/-- One window against an honest server. -/
private theorem syncWindow_swept {fromUid : U32} {p : Progress} {s : World}
    (hv : Checkpointed computeHash accountId mail uidvalidity uidNext folder rows c s.view)
    (hs : Swept computeHash accountId mail uidvalidity uidNext folder c fromUid p s.view) :
    SafeAct (honestContract computeHash accountId mail uidvalidity uidNext folder rows c)
      (fun p' t => if lastWindow (uidNext.map (·.saturatingSub 1)) (windowEnd (uidNext.map (·.saturatingSub 1)) fromUid)
          p'.fetchedAny then SweptAll computeHash accountId mail uidvalidity uidNext folder c p' t.view
        else Swept computeHash accountId mail uidvalidity uidNext folder c
          ((windowEnd (uidNext.map (·.saturatingSub 1)) fromUid).saturatingAdd 1) p' t.view)
      (fun _ _ => True)
      (syncWindow accountId folder ⟨some uidvalidity, uidNext⟩ uidvalidity fromUid
        (windowEnd (uidNext.map (·.saturatingSub 1)) fromUid) p) s := by
  generalize hto : windowEnd (uidNext.map (·.saturatingSub 1)) fromUid = toUid
  obtain ⟨hle, hwidth, hbelow⟩ := hto ▸ hs.window
  refine syncWindow_rule viewContract_stable
    (fun items p t => Reads computeHash accountId mail uidvalidity folder c fromUid toUid items p t.view)
    ⟨fun _ _ => kept_alone _, ?_, ?_, fun _ _ _ _ _ _ => trivial⟩ (fun _ => kept_alone _) ?_ ?_ ?_
  · intro uid body date flags items p t ht hJ
    refine ingestFetch_view AnyStep.refl
      (fun v => Reads computeHash accountId mail uidvalidity folder c fromUid toUid items
      ⟨max p.high uid, true, p.ingested + 1⟩ v) (fun _ _ => True) ht (fun _ => trivial)
        fun payload hacc hid hu huv hc => ?_
    exact ⟨ht.push fun _ _ _ _ _ he => (by cases he), trivial, hJ.one hacc hid hu huv hc⟩
  · intro f items p t _ hnone hJ
    obtain ⟨uid, body, hu, hb, -⟩ := hJ.sound f (List.mem_cons_self ..)
    rcases hnone with h | h
    · rw [h] at hu
      cases hu
    · rw [h] at hb
      cases hb
  · refine uidFetch_view (fun items v => Reads computeHash accountId mail uidvalidity folder c fromUid toUid items _ v)
      (fun _ _ => True) ?_ trivial
      (fun _ => trivial) fun items hd => hs.fetch hle hd
    apply hv.push
    intro n hn folderId a b he
    cases he
    exact ⟨hs.fetched.symm, hle, hwidth, hbelow n hn⟩
  · intro p' t ht hJ _
    refine recordSyncProgress_view AnyStep.refl
      (fun v => if lastWindow (uidNext.map (·.saturatingSub 1)) toUid p'.fetchedAny then
        SweptAll computeHash accountId mail uidvalidity uidNext folder c p' v
      else Swept computeHash accountId mail uidvalidity uidNext folder c (toUid.saturatingAdd 1) p' v)
        (fun _ _ => True) ht (fun _ => trivial) fun now _ => ?_
    refine ⟨ht.persist fun uid hm h1 h2 => hJ.covered_to uid hm h1 (h2.trans hJ.high.1), trivial, ?_⟩
    have hfin := Reads.finish hs hto.symm hle hJ
    by_cases hl : lastWindow (uidNext.map (·.saturatingSub 1)) toUid p'.fetchedAny = true
    · rw [if_pos hl] at hfin ⊢
      exact hfin.persist
    · rw [if_neg hl] at hfin ⊢
      exact hfin.persist
  · exact fun p' t _ hJ _ => Reads.finish hs hto.symm hle hJ

private theorem syncFrom_swept (hmax : uidNext = none → c < U32.maxValue) {s : World}
    (hv : Checkpointed computeHash accountId mail uidvalidity uidNext folder rows c s.view)
      (hb : Begun computeHash accountId mail folder uidvalidity c s.view) :
    SafeAct (honestContract computeHash accountId mail uidvalidity uidNext folder rows c)
      (fun r t => r.2 = uidvalidity ∧ ∃ p, SweptAll computeHash accountId mail uidvalidity uidNext folder c p t.view)
        (fun _ _ => True)
      (syncFrom accountId folder ⟨some uidvalidity, uidNext⟩ uidvalidity c) s := by
  refine syncFrom_rule viewContract_stable (fun t => Begun computeHash accountId mail folder uidvalidity c t.view)
    (fun fromUid p t => Swept computeHash accountId mail uidvalidity uidNext folder c fromUid p t.view)
    (fun p t => SweptAll computeHash accountId mail uidvalidity uidNext folder c p t.view)
    (fun _ t => ∃ p, SweptAll computeHash accountId mail uidvalidity uidNext folder c p t.view)
    (fun _ => kept_alone _) (fun _ => kept_alone _) ?_ ?_ ?_ ?_ ?_ ?_ hv hb
  · exact fun t ht hb =>
      perform_view AnyStep.refl (fun _ v => Begun computeHash accountId mail folder uidvalidity c v)
        (fun _ _ => True) ht
        (fun _ _ => rfl) fun _ _ => hb
  · intro hup t ht hb
    refine recordSyncProgress_view AnyStep.refl
      (fun v => ∃ p, SweptAll computeHash accountId mail uidvalidity uidNext folder c p v)
      (fun _ _ => True) ht (fun _ => trivial) fun now _ =>
        ⟨ht.persist .self, trivial, ⟨c, false, 0⟩, fun _ => rfl, fun n hn => ?_, fun hn => ?_⟩
    · subst hn
      have hle : n.saturatingSub 1 ≤ c := by
        have h1 : (1 : U32).val = 1 := rfl
        simp only [Mailbox.upper, Option.map_some, Option.any_some, decide_eq_true_eq, Fin.lt_def, Fin.le_def,
          U32.val_saturatingAdd, U32.val_saturatingSub, h1] at hup ⊢
        omega
      exact ⟨fun uid _ h1 h2 => absurd (lt_of_lt_of_le h1 (h2.trans hle)) (lt_irrefl _),
        hb.fetched.trans (max_eq_left hle).symm⟩
    · subst hn
      cases hup
  · exact fun hup t ht hb => hb.swept hmax hup
  · exact fun fromUid p t ht hs => syncWindow_swept ht hs
  · intro p t ht hf h0
    refine recordSyncProgress_view AnyStep.refl
      (fun v => ∃ p, SweptAll computeHash accountId mail uidvalidity uidNext folder c p v)
      (fun _ _ => True) ht (fun _ => trivial) fun now _ => ⟨ht.persist ?_, trivial, p, hf.persist⟩
    rw [hf.high h0]
    exact .self
  · exact fun p t _ hf _ => ⟨p, hf⟩

private theorem checkUidvalidity_begun {s : World} (hc : c = startCursor folder uidvalidity)
    (hv : Checkpointed computeHash accountId mail uidvalidity uidNext folder rows c s.view)
      (hb : Begun computeHash accountId mail folder uidvalidity c s.view) :
    SafeAct (honestContract computeHash accountId mail uidvalidity uidNext folder rows c)
      (fun r t => r = c ∧ Begun computeHash accountId mail folder uidvalidity c t.view) (fun _ _ => True)
        (checkUidvalidity folder uidvalidity) s := by
  unfold checkUidvalidity
  rw [startCursor] at hc
  split
  · rename_i hr
    rw [if_pos hr] at hc
    refine SafeAct.seq viewContract_stable (handleUidvalidityChange_view AnyStep.refl
      (fun v => Begun computeHash accountId mail folder uidvalidity c v) (fun _ _ => True) ?_ fun now _ => ?_)
      fun _ t _ hb => SafeAct.pure fun u _ hr => hr ▸ ⟨hc.symm, hb⟩
    · exact ⟨hv.push fun _ _ _ _ _ he => (by cases he), trivial, fun _ => trivial⟩
    · have hreset : Checkpointed computeHash accountId mail uidvalidity uidNext folder rows c
          ((s.view.push (.rollover folder.id uidvalidity)).persist folder.id uidvalidity 0 now) :=
        (hv.push fun _ _ _ _ _ he => (by cases he)).persist (hc ▸ .self)
      refine ⟨hreset, trivial, fun _ => trivial, hreset.push fun _ _ _ _ _ he => (by cases he), trivial, ?_⟩
      exact (((hb.cons (by rintro _ ⟨⟩) rfl : Begun computeHash accountId mail folder uidvalidity c
        (s.view.push (.rollover folder.id uidvalidity))).cons
        (by rintro _ ⟨⟩) rfl : Begun computeHash accountId mail folder uidvalidity c (_ : SyncView))).cons
          (by rintro _ ⟨⟩) rfl
  · rename_i hr
    rw [if_neg hr] at hc
    refine SafeAct.seq viewContract_stable
      (note_view (fun v => Begun computeHash accountId mail folder uidvalidity c v) (fun _ _ => True)
      (hv.push fun _ _ _ _ _ he => (by cases he)) trivial (hb.cons (by rintro _ ⟨⟩) rfl)) fun _ t _ hb =>
      SafeAct.pure fun u _ hr => hr ▸ ⟨hc.symm, hb⟩

end Walk

/-- A whole pass against an honest server, with what holds after each of its steps. -/
private theorem syncFolder_swept {computeHash : Bytes → ContentHash} (mail : MailboxContent) (uidvalidity : U32)
    (uidNext : Option U32) (accountId : AccountId) (folder : FolderConfig) (w : World)
    (hmax : uidNext = none → startCursor folder uidvalidity < U32.maxValue) :
    SafeAct (honestContract computeHash accountId mail uidvalidity uidNext folder w.db.folders
      (startCursor folder uidvalidity))
      (fun r t => r.2 = uidvalidity ∧
        ∃ p, SweptAll computeHash accountId mail uidvalidity uidNext folder (startCursor folder uidvalidity) p t.view)
      (fun _ _ => True) (syncFolder accountId folder) w.atStart := by
  have hv : Checkpointed computeHash accountId mail uidvalidity uidNext folder w.db.folders
      (startCursor folder uidvalidity) w.atStart.view :=
    ⟨fun f hf _ => .inl hf, fun _ _ => always_nil⟩
  have hb : Begun computeHash accountId mail folder uidvalidity (startCursor folder uidvalidity) w.atStart.view :=
    ⟨fun uid hi => (by obtain ⟨_, hm, _⟩ := hi; cases hm), rfl⟩
  refine SafeAct.seq viewContract_stable (selectFolder_view AnyStep.refl
    (fun mailbox v => mailbox = ⟨some uidvalidity, uidNext⟩ ∧
      Begun computeHash accountId mail folder uidvalidity (startCursor folder uidvalidity) v)
    (fun _ _ => True) hv (fun _ => trivial)
    fun mailbox hm => ⟨hv.push fun _ _ _ _ _ he => (by cases he), trivial, hm, hb.cons (by rintro _ ⟨⟩) rfl⟩)
    fun mailbox t ht hm => ?_
  obtain ⟨rfl, hbt⟩ := hm
  change SafeAct _ _ _ (checkUidvalidity folder uidvalidity >>= _) t
  apply SafeAct.seq viewContract_stable (checkUidvalidity_begun rfl ht hbt)
  intro c u hu hc
  obtain ⟨rfl, hbu⟩ := hc
  exact syncFrom_swept hmax hu hbu

/-- With UIDNEXT known, cut short after any step: a persisted `last_uid` is covered by what was
ingested and the windows tile; a pass that returns has ingested everything below UIDNEXT. -/
theorem syncFolder_crashSafe {computeHash : Bytes → ContentHash} (mail : MailboxContent) (uidvalidity uidNext : U32)
    (accountId : AccountId) (folder : FolderConfig) (w : World) :
    (∀ p s, Reaches (honest mail uidvalidity (some uidNext) : (backend computeHash).Allowed)
        ((syncFolder accountId folder).run, w.atStart) (p, s) →
      (∀ f ∈ s.db.folders, f.id = folder.id →
        f ∈ w.db.folders ∨
          Covered computeHash mail accountId folder uidvalidity (startCursor folder uidvalidity) f.lastUid s.log) ∧
      Tiled (startCursor folder uidvalidity) uidNext s.log ∧
      ∀ r, p = .ret (.ok r) →
        Covered computeHash mail accountId folder uidvalidity (startCursor folder uidvalidity)
          (uidNext.saturatingSub 1) s.log ∧
        fetchedTo (startCursor folder uidvalidity) s.log =
          max (startCursor folder uidvalidity) (uidNext.saturatingSub 1)) ∧
    ∀ run : Nat → BackendProg (Except Error (U32 × U32)) × World,
      run 0 = ((syncFolder accountId folder).run, w.atStart) →
      ¬ ∀ i, Step (honest mail uidvalidity (some uidNext) : (backend computeHash).Allowed)
        (run i) (run (i + 1)) := by
  refine ⟨fun p s hr => ?_, fun run h0 => @no_infinite_run (backend computeHash) _ _ _ _ run h0⟩
  have safe := @syncFolder_swept computeHash mail uidvalidity (some uidNext) accountId folder w
    fun h => by cases h
  have hv : Checkpointed computeHash accountId mail uidvalidity (some uidNext) folder w.db.folders
    (startCursor folder uidvalidity)
      w.atStart.view := ⟨fun f hf _ => .inl hf, fun _ _ => always_nil⟩
  obtain ⟨hvs, hs⟩ := Safe.reaches viewContract_stable safe hv hr
  refine ⟨hvs.row, hvs.tiled uidNext rfl, ?_⟩
  rintro r rfl
  obtain ⟨-, q, hq⟩ := hs s hvs rfl
  exact hq.known uidNext rfl

def NoEmptyBatch (mail : MailboxContent) (c : U32) : Prop :=
  ∀ uid, mail.Has uid → ∀ k, c.val + 200 * (k + 1) < uid.val → FullWindow mail c k

/-- A pass that returns has ingested every UID above its cursor just where no batch of 200 UIDs
between the cursor and an existing UID is empty. -/
theorem syncFolder_complete_iff {computeHash : Bytes → ContentHash} {mail : MailboxContent} {uidvalidity : U32}
    {accountId : AccountId} {folder : FolderConfig} {w s : World} {r : U32 × U32}
    (run : Runs (honest mail uidvalidity none : (backend computeHash).Allowed) (syncFolder accountId folder).run
      w.atStart (.ok r) s) :
    (∀ uid, mail.Has uid → startCursor folder uidvalidity < uid →
      Ingested computeHash mail accountId folder uidvalidity uid s.log) ↔
      NoEmptyBatch mail (startCursor folder uidvalidity) := by
  by_cases hmax : startCursor folder uidvalidity < U32.maxValue
  · have safe := @syncFolder_swept computeHash mail uidvalidity none accountId folder w fun _ => hmax
    have hv : Checkpointed computeHash accountId mail uidvalidity none folder w.db.folders
        (startCursor folder uidvalidity) w.atStart.view :=
      ⟨fun f hf _ => .inl hf, fun _ _ => always_nil⟩
    obtain ⟨-, -, q, hq⟩ := Safe.runs viewContract_stable safe hv run
    exact hq.unknown rfl
  · have htop : ∀ uid : U32, uid.val ≤ (startCursor folder uidvalidity).val := by
      intro uid
      have := U32.le_maxValue uid
      exact Fin.le_def.mp (this.trans (not_lt.mp hmax))
    constructor
    · intro _ uid _ k hk
      have := htop uid
      omega
    · intro _ uid _ hc
      have := htop uid
      rw [Fin.lt_def] at hc
      omega

def oneMail (uid : U32) : MailboxContent := fun u => if u = uid then some [1] else none

def oneMailAnswers (uid a b : U32) : List (Except ImapError Fetch) :=
  if InRange a b uid then [.ok ⟨some uid, some [1], some 0, []⟩] else []

private theorem oneMail_delivered (uid a b : U32) : Delivered (oneMail uid) a b (oneMailAnswers uid a b) := by
  refine ⟨if InRange a b uid then [⟨some uid, some [1], some 0, []⟩] else [], ⟨?_, ?_, ?_⟩, .inl ?_⟩
  · intro f hf
    split at hf
    · rename_i hr
      obtain rfl := List.mem_singleton.mp hf
      exact ⟨uid, [1], rfl, rfl, hr, if_pos rfl⟩
    · cases hf
  · intro u hr hu
    have : u = uid := by
      by_contra hne
      rw [MailboxContent.Has, oneMail, if_neg hne] at hu
      cases hu
    subst this
    exact ⟨⟨some u, some [1], some 0, []⟩, by rw [if_pos hr]; exact List.mem_singleton_self _, rfl⟩
  · split <;> simp
  · rw [oneMailAnswers]
    split <;> rfl

private theorem calm_honest {computeHash : Bytes → ContentHash} {mail : MailboxContent} {uidvalidity : U32}
    {uidNext : Option U32} {answers : U32 → U32 → List (Except ImapError Fetch)} {token : Nat}
    (hd : ∀ a b, Delivered mail a b (answers a b)) (s : World) (o : BackendOp) :
    (honest mail uidvalidity uidNext : (backend computeHash).Allowed) s o
      (calm ⟨some uidvalidity, uidNext⟩ answers token o) := by
  cases o <;> first | trivial | rfl | exact hd _ _

def gapRun : BackendProg (Except Error (U32 × U32)) × World :=
  (backend firstByte).follow (calm ⟨some 5, none⟩ (oneMailAnswers 300) 1) 13
    ((syncFolder 1 (folderConfig (inbox none 0))).run, inboxWorld none 0)

private theorem gapRun_runs : Runs (honest (oneMail 300) 5 none : (backend firstByte).Allowed)
    (syncFolder 1 (folderConfig (inbox none 0))).run (inboxWorld none 0).atStart (.ok (0, 5)) gapRun.2 := by
  have hr : Reaches (honest (oneMail 300) 5 none : (backend firstByte).Allowed)
      ((syncFolder 1 (folderConfig (inbox none 0))).run, (inboxWorld none 0).atStart) gapRun :=
    @reaches_follow (backend firstByte) _ _ _ (calm_honest (oneMail_delivered 300)) 13 _
  have hret : gapRun = (.ret (.ok (0, 5)), gapRun.2) := rfl
  rw [hret] at hr
  exact hr

theorem syncFolder_complete_iff_gap :
    (∀ uid, (oneMail 300).Has uid → 0 < uid →
      Ingested firstByte (oneMail 300) 1 (folderConfig (inbox none 0)) 5 uid gapRun.2.log) ↔
      NoEmptyBatch (oneMail 300) 0 :=
  syncFolder_complete_iff gapRun_runs

theorem syncFolder_stops_at_gap : ¬ ∀ (mail : MailboxContent) (uidvalidity : U32) (accountId : AccountId)
    (folder : FolderConfig) (w s : World) (r : U32 × U32),
    Runs (honest mail uidvalidity none : (backend firstByte).Allowed) (syncFolder accountId folder).run w.atStart
      (.ok r) s →
    ∀ uid, mail.Has uid → startCursor folder uidvalidity < uid →
      Ingested firstByte mail accountId folder uidvalidity uid s.log := by
  intro h
  obtain ⟨payload, hm, -⟩ := h _ _ _ _ _ _ _ gapRun_runs 300 rfl (by decide)
  have hlog : gapRun.2.log = [.persisted 7 5 0, .fetched 7 1 200, .unchanged 7 5,
      .selected (folderConfig (inbox none 0)) ⟨some 5, none⟩ none] := rfl
  rw [hlog] at hm
  simp at hm

end MailKeep
