import MailKeep.Imap.View

/-! What a pass does to the folder rows and the history from its cursor on, for any invariant of the
high-water mark. -/
namespace MailKeep
open Program Backend

def SyncView.Synced (v : SyncView) (folderId : FolderId) (uidvalidity lastUid : U32) : Prop :=
  ∃ f ∈ v.folders, f.id = folderId ∧ f.uidvalidity = some uidvalidity ∧ f.lastUid = lastUid

private theorem SyncView.Has.synced_persist {v : SyncView} {folderId : FolderId} (h : v.Has folderId)
    (uidvalidity lastUid : U32)
    (now : DateTimeUtc) : (v.persist folderId uidvalidity lastUid now).Synced folderId uidvalidity lastUid := by
  obtain ⟨f, hf, hid⟩ := h
  exact ⟨f.synced uidvalidity lastUid now, SyncView.mem_persist.mpr ⟨f, hf, by rw [if_pos hid]⟩, hid, rfl, rfl⟩

theorem SyncView.Synced.recorded {v : SyncView} {folderId : FolderId} {uidvalidity lastUid : U32}
    (h : v.Synced folderId uidvalidity lastUid) : recordedUidvalidity v.folders folderId = some uidvalidity := by
  obtain ⟨f, hf, hid, huv, -⟩ := h
  rw [recordedUidvalidity, Keyed.Table.find?_eq_some.mpr ⟨hf, hid⟩]
  exact huv

/-- `P` of the high-water mark is kept by each write of a pass that starts from the cursor `c`;
`Sent` holds of the UIDs the server may send. -/
structure ScanRule {computeHash : Bytes → ContentHash} (allowed : (backend computeHash).Allowed)
    (V : SyncView → Prop)
    (G : SyncView → SyncView → Prop) (folder : FolderConfig) (mailbox : Mailbox) (uidvalidity c : U32)
    (Sent : U32 → Prop) (P : U32 → SyncView → Prop) : Prop where
  refl : ∀ v, G v v
  fetched : ∀ h v a b, V v → P h v →
    let v' := v.push (.fetched folder.id a b)
    V v' ∧ G v v' ∧ P h v'
  ingested : ∀ h v payload, V v → P h v → payload.folderId = folder.id → payload.uidvalidity = uidvalidity →
    Sent payload.uid →
    let v' := v.push (.ingested payload)
    V v' ∧ G v v' ∧ P (max h payload.uid) v'
  persisted : ∀ h v now, V v → P h v → v.Has folder.id →
    let v' := v.persist folder.id uidvalidity h now
    V v' ∧ G v v' ∧ P h v'
  sent : ∀ s a b items, ((mailbox.uidNext = none → c < U32.maxValue) → c < a ∧ a ≤ b) →
    allowed s (.uidFetch folder mailbox a b) (.ok items) →
    ∀ uid body date flags, .ok ⟨some uid, some body, date, flags⟩ ∈ items → Sent uid

section Scan
variable {computeHash : Bytes → ContentHash} {allowed : (backend computeHash).Allowed} {V : SyncView → Prop}
  {G : SyncView → SyncView → Prop} {accountId : AccountId} {folder : FolderConfig} {mailbox : Mailbox}
  {uidvalidity c : U32} {Sent : U32 → Prop} {P : U32 → SyncView → Prop} {s : World}

/-- Between two windows: where mail was ingested, the row is at the high-water mark. -/
structure Scanned (folder : FolderConfig) (uidvalidity : U32) (P : U32 → SyncView → Prop)
    (p : Progress) (v : SyncView) :
    Prop where
  keeps : P p.high v
  row : p.ingested ≠ 0 → v.Synced folder.id uidvalidity p.high

structure AtWindow (folder : FolderConfig) (mailbox : Mailbox) (uidvalidity c : U32) (P : U32 → SyncView → Prop)
    (fromUid : U32) (p : Progress) (v : SyncView) : Prop extends Scanned folder uidvalidity P p v where
  above : (mailbox.uidNext = none → c < U32.maxValue) → c < fromUid
  upper : ∀ n, mailbox.upper = some n → fromUid ≤ n

structure InWindow (folder : FolderConfig) (uidvalidity : U32) (Sent : U32 → Prop) (P : U32 → SyncView → Prop)
    (items : List (Except ImapError Fetch)) (p : Progress) (v : SyncView) : Prop where
  keeps : P p.high v
  row : p.fetchedAny = false → p.ingested ≠ 0 → v.Synced folder.id uidvalidity p.high
  sent : ∀ uid body date flags, .ok ⟨some uid, some body, date, flags⟩ ∈ items → Sent uid

theorem AtWindow.range {fromUid : U32} {p : Progress} {v : SyncView}
    (h : AtWindow folder mailbox uidvalidity c P fromUid p v) :
    fromUid ≤ windowEnd mailbox.upper fromUid := by
  cases hu : mailbox.upper with
  | none => exact Fin.le_def.mpr windowEnd_le_max
  | some n =>
    refine le_min ?_ (h.upper n hu)
    rw [Fin.le_def, U32.val_saturatingAdd]
    omega

/-- The next window starts above the last one. -/
theorem AtWindow.next {fromUid : U32} {p p' : Progress} {v v' : SyncView} {fetchedAny : Bool}
    (h : AtWindow folder mailbox uidvalidity c P fromUid p v) (hs : Scanned folder uidvalidity P p' v')
    (hl : lastWindow mailbox.upper (windowEnd mailbox.upper fromUid) fetchedAny = false) :
    AtWindow folder mailbox uidvalidity c P ((windowEnd mailbox.upper fromUid).saturatingAdd 1) p' v' := by
  obtain ⟨hend, hnext⟩ := windowEnd_next hl
  refine ⟨hs, fun hm => ?_, fun n hn => ?_⟩
  · have := h.above hm
    rw [Fin.lt_def] at this ⊢
    omega
  · simp only [hn, lastWindow, decide_eq_false_iff_not, Fin.le_def, not_le] at hl hend hnext ⊢
    omega

private theorem syncWindow_scanned (R : ScanRule allowed V G folder mailbox uidvalidity c Sent P)
    {fromUid : U32} {p : Progress}
    (hV : V s.view) (h : AtWindow folder mailbox uidvalidity c P fromUid p s.view) :
    SafeAct (viewContract allowed V G)
      (fun p' t => if lastWindow mailbox.upper (windowEnd mailbox.upper fromUid) p'.fetchedAny then
          Scanned folder uidvalidity P p' t.view
        else AtWindow folder mailbox uidvalidity c P ((windowEnd mailbox.upper fromUid).saturatingAdd 1) p' t.view)
      (fun _ t => ∃ h, P h t.view)
      (syncWindow accountId folder mailbox uidvalidity fromUid (windowEnd mailbox.upper fromUid) p) s := by
  have finish : ∀ (p' : Progress) (v : SyncView), Scanned folder uidvalidity P p' v →
      if lastWindow mailbox.upper (windowEnd mailbox.upper fromUid) p'.fetchedAny then Scanned folder uidvalidity P p' v
      else AtWindow folder mailbox uidvalidity c P ((windowEnd mailbox.upper fromUid).saturatingAdd 1) p' v := by
    intro p' v hs
    split
    · exact hs
    · rename_i hl
      exact h.next hs (by simpa using hl)
  refine syncWindow_rule viewContract_stable
    (fun items p t => InWindow folder uidvalidity Sent P items p t.view)
    ⟨fun _ _ => kept_alone _, ?_, ?_, fun _ _ p _ _ h => ⟨p.high, h.keeps⟩⟩ (fun _ => kept_alone _) ?_ ?_ ?_
  · intro uid body date flags items p t ht hJ
    have hsent := hJ.sent uid body date flags (List.mem_cons_self ..)
    refine ingestFetch_view R.refl (fun v => InWindow folder uidvalidity Sent P items ⟨max p.high uid, true, p.ingested + 1⟩ v)
      (fun _ v => ∃ h, P h v) ht (fun _ => ⟨p.high, hJ.keeps⟩) ?_
    rintro payload - hid rfl huv -
    obtain ⟨h1, h2, h3⟩ := R.ingested p.high t.view payload ht hJ.keeps hid huv hsent
    exact ⟨h1, h2, h3, fun hf => (by cases hf), fun u b d f hm => hJ.sent u b d f (List.mem_cons_of_mem _ hm)⟩
  · exact fun f items p t _ _ hJ => ⟨hJ.keeps, hJ.row, fun u b d f hm => hJ.sent u b d f (List.mem_cons_of_mem _ hm)⟩
  · obtain ⟨h1, h2, h3⟩ := R.fetched p.high s.view fromUid (windowEnd mailbox.upper fromUid) hV h.keeps
    refine uidFetch_view (fun items v => InWindow folder uidvalidity Sent P items { p with fetchedAny := false } v)
      (fun _ v => ∃ h, P h v) h1 h2 (fun _ => ⟨p.high, h3⟩) fun items hc => ?_
    exact ⟨h3, fun _ h0 => h.row h0, R.sent s _ _ items (fun hm => ⟨h.above hm, h.range⟩) hc⟩
  · intro p' t ht hJ _
    refine recordSyncProgress_view R.refl (fun v => if lastWindow mailbox.upper (windowEnd mailbox.upper fromUid) p'.fetchedAny then
        Scanned folder uidvalidity P p' v
      else AtWindow folder mailbox uidvalidity c P ((windowEnd mailbox.upper fromUid).saturatingAdd 1) p' v)
      (fun _ v => ∃ h, P h v) ht (fun _ => ⟨p'.high, hJ.keeps⟩) fun now hhas => ?_
    obtain ⟨h1, h2, h3⟩ := R.persisted p'.high t.view now ht hJ.keeps hhas
    exact ⟨h1, h2, finish p' _ ⟨h3, fun _ => hhas.synced_persist uidvalidity p'.high now⟩⟩
  · exact fun p' t _ hJ hf => finish p' _ ⟨hJ.keeps, hJ.row hf⟩

/-- A pass that returns leaves the row at what it returned. -/
theorem syncFrom_scanned (R : ScanRule allowed V G folder mailbox uidvalidity c Sent P)
    (hV : V s.view) (hP : P c s.view) :
    SafeAct (viewContract allowed V G)
      (fun r t => r.2 = uidvalidity ∧ P r.1 t.view ∧ t.view.Synced folder.id uidvalidity r.1)
      (fun _ t => ∃ h, P h t.view) (syncFrom accountId folder mailbox uidvalidity c) s := by
  have record : ∀ (h : U32) (t : World), V t.view → P h t.view →
      SafeAct (viewContract allowed V G) (fun _ t => P h t.view ∧ t.view.Synced folder.id uidvalidity h)
        (fun _ t => ∃ h, P h t.view) (recordSyncProgress folder.id uidvalidity h) t := by
    intro h t ht hPt
    refine recordSyncProgress_view R.refl (fun v => P h v ∧ v.Synced folder.id uidvalidity h)
      (fun _ v => ∃ h, P h v) ht (fun _ => ⟨h, hPt⟩) fun now hhas => ?_
    obtain ⟨h1, h2, h3⟩ := R.persisted h t.view now ht hPt hhas
    exact ⟨h1, h2, h3, hhas.synced_persist uidvalidity h now⟩
  refine syncFrom_rule viewContract_stable (fun t => P c t.view)
    (fun fromUid p t => AtWindow folder mailbox uidvalidity c P fromUid p t.view)
    (fun p t => Scanned folder uidvalidity P p t.view)
    (fun h t => P h t.view ∧ t.view.Synced folder.id uidvalidity h)
    (fun _ => kept_alone _) (fun _ => kept_alone _) ?_ (fun _ => record c) ?_ ?_ ?_ ?_ hV hP
  · exact fun t ht hPt => perform_view R.refl (fun _ v => P c v) (fun _ v => ∃ h, P h v) ht
      (fun _ _ => rfl) fun _ _ => hPt
  · intro hup t _ hPt
    have h1 : (1 : U32).val = 1 := rfl
    refine ⟨⟨hPt, fun h0 => absurd rfl h0⟩, fun hm => ?_, fun n hn => ?_⟩
    · rw [Fin.lt_def, U32.val_saturatingAdd, h1]
      cases hn : mailbox.uidNext with
      | none =>
        have := hm hn
        rw [Fin.lt_def, U32.val_maxValue] at this
        omega
      | some n =>
        simp only [Mailbox.upper, hn, Option.map_some, Option.any_some, decide_eq_false_iff_not, Fin.lt_def,
          U32.val_saturatingAdd, U32.val_saturatingSub, h1] at hup
        omega
    · rw [hn, Option.any_some, decide_eq_false_iff_not, not_lt] at hup
      exact hup
  · exact fun fromUid p t ht h => syncWindow_scanned R ht h
  · exact fun p t ht h _ => record p.high t ht h.keeps
  · exact fun p t _ h h0 => ⟨h.keeps, h.row h0⟩

end Scan
end MailKeep
