import MailKeep.Imap.PassRules

/-! A sync task that runs alone, seen through the folder rows and the history it leaves. -/
namespace MailKeep
open Program Backend

structure SyncView where
  folders : Keyed.Table Folder.id
  log : List Event

def World.view (w : World) : SyncView := ⟨w.db.folders, w.log⟩

namespace SyncView

def push (v : SyncView) (e : Event) : SyncView := { v with log := e :: v.log }

/-- Recorded sync progress: the row is written and the history says so. -/
def persist (v : SyncView) (folderId : FolderId) (uidvalidity lastUid : U32) (now : DateTimeUtc) : SyncView where
  folders := v.folders.update (·.id = folderId) (·.synced uidvalidity lastUid now)
    fun f => f.synced_id uidvalidity lastUid now
  log := .persisted folderId uidvalidity lastUid :: v.log

def Has (v : SyncView) (folderId : FolderId) : Prop := ∃ f ∈ v.folders, f.id = folderId

theorem mem_persist {v : SyncView} {folderId : FolderId} {uidvalidity lastUid : U32}
    {now : DateTimeUtc} {f : Folder} :
    f ∈ (v.persist folderId uidvalidity lastUid now).folders ↔
      ∃ g ∈ v.folders, f = if g.id = folderId then g.synced uidvalidity lastUid now else g := by
  rw [persist, Keyed.Table.mem_update]
  simp only [decide_eq_true_eq]

end SyncView

@[simp] theorem World.view_push (w : World) (e : Event) : (w.push e).view = w.view.push e := rfl

private theorem World.transact_recordSyncProgress (w : World) (folderId : FolderId) (uidvalidity lastUid : U32)
    (now : DateTimeUtc) (c : Except DbErr Draw) :
    (∃ e, w.transact (.recordSyncProgress folderId uidvalidity lastUid now) c = (.error e, w)) ∨
      w.view.Has folderId ∧ w.transact (.recordSyncProgress folderId uidvalidity lastUid now) c =
        (.ok (), { w with
          db := w.db.setSyncState folderId uidvalidity lastUid now
          log := .persisted folderId uidvalidity lastUid :: w.log }) := by
  rcases w.transact_cases (.recordSyncProgress folderId uidvalidity lastUid now) c with he | ⟨d, r, db, -, h, hok⟩
  · exact .inl he
  · obtain ⟨hrow, rfl⟩ := FolderRepository.updateSyncState_ok h
    exact .inr ⟨hrow, hok⟩

private theorem World.transact_deleteLocations (w : World) (folderId : FolderId) (c : Except DbErr Draw) :
    (∃ e, w.transact (.deleteLocationsForFolder folderId) c = (.error e, w)) ∨
      ∃ n, w.transact (.deleteLocationsForFolder folderId) c =
        (.ok n, { w with db := w.db.dropLocations folderId, log := .dropped folderId :: w.log }) := by
  rcases w.transact_cases (.deleteLocationsForFolder folderId) c with he | ⟨d, n, db, -, h, hok⟩
  · exact .inl he
  · obtain rfl := MessageLocationRepository.deleteByFolderId_ok h
    exact .inr ⟨n, hok⟩

private theorem World.transact_enqueueRaw (w : World) (jobType : String) (payload : ParseMessageJob) (priority : Int)
    (c : Except DbErr Draw) :
    (∃ e, w.transact (.enqueueRaw jobType payload priority) c = (.error e, w)) ∨
      ∃ job db, w.transact (.enqueueRaw jobType payload priority) c = (.ok job, { w with db := db }) ∧
        job.payload = payload ∧ job.status = .pending ∧
        db = { w.db with jobs := db.jobs, nextJobId := w.db.nextJobId + 1 } ∧
        ∀ j, j ∈ db.jobs ↔ j ∈ w.db.jobs ∨ j = job := by
  rcases w.transact_cases (.enqueueRaw jobType payload priority) c with he | ⟨d, job, db, -, h, hok⟩
  · exact .inl he
  · exact .inr ⟨job, db, hok, JobRepository.enqueueRaw_ok h⟩

section Alone
variable {computeHash : Bytes → ContentHash} {allowed : (backend computeHash).Allowed} {V : SyncView → Prop}
  {G : SyncView → SyncView → Prop} {s : World}

def viewContract (allowed : (backend computeHash).Allowed) (V : SyncView → Prop) (G : SyncView → SyncView → Prop) :
    Contract (backend computeHash) :=
  .alone allowed (fun s => V s.view) fun s t => G s.view t.view

def AnyStep (_ _ : SyncView) : Prop := True

theorem AnyStep.refl (v : SyncView) : AnyStep v v := trivial

theorem viewContract_stable : (viewContract allowed V G).Stable := Contract.alone_stable _ _ _

theorem kept_alone (P : World → Prop) : Kept (viewContract allowed V G) P := fun _ _ h _ hr => hr ▸ h

/-- An operation that leaves the view as it is. -/
theorem perform_view (refl : ∀ v, G v v) {o : BackendOp} (Q : o.Value → SyncView → Prop)
    (E : Error → SyncView → Prop)
    (hV : V s.view)
    (same : ∀ c w, (backendExec computeHash o c w).2.view = w.view)
    (h : ∀ c, allowed s o c → Q (backendExec computeHash o c s).1 s.view) :
    SafeAct (viewContract allowed V G) (fun r t => Q r t.view) (fun e t => E e t.view) (perform o) s := by
  apply perform_rule
  rintro _ - rfl c hc
  have hsame := same c s
  refine ⟨?_, ?_, ?_⟩
  · change V (backendExec computeHash o c s).2.view
    exact hsame ▸ hV
  · change G s.view (backendExec computeHash o c s).2.view
    exact hsame ▸ refl _
  · rintro _ - rfl
    exact hsame ▸ h c hc

private theorem transact_view {t : Txn} (Q : t.Result → SyncView → Prop) (E : Error → SyncView → Prop)
    (h : ∀ c, allowed s (.transact t) c → V (s.transact t c).2.view ∧ G s.view (s.transact t c).2.view ∧
      (∀ r, (s.transact t c).1 = .ok r → Q r (s.transact t c).2.view) ∧
      ∀ e, (s.transact t c).1 = .error e → E e (s.transact t c).2.view) :
    SafeAct (viewContract allowed V G) (fun r t => Q r t.view) (fun e t => E e t.view) (transact t) s := by
  apply transact_rule
  rintro _ - rfl c hc
  obtain ⟨hv, hg, hok, herr⟩ := h c hc
  exact ⟨hv, hg, by rintro _ - rfl; exact ⟨hok, herr⟩⟩

theorem note_view {e : Event} (Q : SyncView → Prop) (E : Error → SyncView → Prop)
    (hV : V (s.view.push e)) (hG : G s.view (s.view.push e))
    (h : Q (s.view.push e)) :
    SafeAct (viewContract allowed V G) (fun _ t => Q t.view) (fun e t => E e t.view) (note e) s := by
  apply perform_rule
  rintro _ - rfl c -
  exact ⟨hV, hG, by rintro _ - rfl; exact h⟩

theorem recordSyncProgress_view (refl : ∀ v, G v v) {folderId : FolderId} {uidvalidity lastUid : U32}
    (Q : SyncView → Prop) (E : Error → SyncView → Prop) (hV : V s.view) (failed : ∀ e, E e s.view)
    (h : ∀ now, s.view.Has folderId → V (s.view.persist folderId uidvalidity lastUid now) ∧
      G s.view (s.view.persist folderId uidvalidity lastUid now) ∧
      Q (s.view.persist folderId uidvalidity lastUid now)) :
    SafeAct (viewContract allowed V G) (fun _ t => Q t.view) (fun e t => E e t.view)
      (recordSyncProgress folderId uidvalidity lastUid) s := by
  refine SafeAct.seq viewContract_stable
    (perform_view refl (fun _ v => v = s.view) E hV (fun _ _ => rfl) fun _ _ => rfl) fun now t _ ht => ?_
  apply transact_view (fun _ => Q) E
  intro c _
  rcases t.transact_recordSyncProgress folderId uidvalidity lastUid now c with ⟨e, he⟩ | ⟨hrow, hok⟩
  · rw [he]
    exact ⟨ht ▸ hV, refl _, fun _ h => (by cases h), fun e' _ => ht ▸ failed e'⟩
  · rw [hok]
    obtain ⟨h1, h2, h3⟩ := h now (ht ▸ hrow)
    rw [← ht] at h1 h2 h3
    exact ⟨h1, h2, fun _ _ => h3, fun _ h => by cases h⟩

private theorem ingestRaw_view (refl : ∀ v, G v v) {request : IngestRequest} (Q : SyncView → Prop)
    (E : Error → SyncView → Prop) (hV : V s.view)
    (failed : ∀ e, E e s.view)
    (h : ∀ payload : ParseMessageJob, payload.accountId = request.accountId ∧ payload.folderId = request.folderId ∧
      payload.uid = request.uid ∧ payload.uidvalidity = request.uidvalidity ∧
        payload.contentHash = computeHash request.rawBytes →
      V (s.view.push (.ingested payload)) ∧ G s.view (s.view.push (.ingested payload)) ∧
        Q (s.view.push (.ingested payload))) :
    SafeAct (viewContract allowed V G) (fun _ t => Q t.view) (fun e t => E e t.view) (ingestRaw request) s := by
  have hput : SafeAct (viewContract allowed V G) (fun hash t => hash = computeHash request.rawBytes ∧ t.view = s.view)
      (fun e t => E e t.view) (putRaw request.accountId request.rawBytes) s := by
    apply @SafeAct.call (backend computeHash) _ _ _ _ _ (.putRaw _ _) id s
    rintro _ - rfl c -
    refine ⟨hV, refl _, ?_⟩
    rintro _ - rfl
    refine ⟨fun hash ok => ⟨?_, rfl⟩, fun e _ => failed e⟩
    rcases c with _ | ⟨text, _ | _⟩ <;> cases ok
    rfl
  apply SafeAct.seq viewContract_stable hput
  rintro hash t _ ⟨hhash, ht⟩
  have hjob : SafeAct (viewContract allowed V G) (fun _ u => u.view = s.view) (fun e t => E e t.view)
      (transact (.enqueueRaw "parse_message" (request.job hash) PRIORITY_INGEST)) t := by
    apply transact_view (fun _ v => v = s.view) E
    intro c _
    rcases t.transact_enqueueRaw "parse_message" (request.job hash) PRIORITY_INGEST c with ⟨e, he⟩ | ⟨job, db, hok, -, -, hdb, -⟩
    · rw [he]
      exact ⟨ht ▸ hV, refl _, fun _ h => (by cases h), fun e' _ => ht ▸ failed e'⟩
    · have hview : ({ t with db := db } : World).view = t.view := by
        rw [hdb]
        rfl
      rw [hok]
      exact ⟨hview ▸ ht ▸ hV, hview ▸ refl _, fun _ _ => hview.trans ht, fun _ h => (by cases h)⟩
  apply SafeAct.seq viewContract_stable hjob
  intro job u _ hu
  obtain ⟨h1, h2, h3⟩ := h (request.job hash) ⟨rfl, rfl, rfl, rfl, hhash⟩
  rw [← hu] at h1 h2 h3
  exact SafeAct.seq viewContract_stable (note_view Q E h1 h2 h3) fun _ v _ hq => SafeAct.pure fun w _ hr => hr ▸ hq

/-- Ingesting one answer: where it succeeds, the history has it. -/
theorem ingestFetch_view (refl : ∀ v, G v v) {accountId : AccountId} {folder : FolderConfig} {uidvalidity uid : U32}
    {body : Bytes} {internalDate : Option DateTimeUtc} {flags : List Flag} (Q : SyncView → Prop)
    (E : Error → SyncView → Prop) (hV : V s.view)
    (failed : ∀ e, E e s.view)
    (h : ∀ payload : ParseMessageJob, payload.accountId = accountId → payload.folderId = folder.id →
      payload.uid = uid → payload.uidvalidity = uidvalidity → payload.contentHash = computeHash body →
      V (s.view.push (.ingested payload)) ∧ G s.view (s.view.push (.ingested payload)) ∧
        Q (s.view.push (.ingested payload))) :
    SafeAct (viewContract allowed V G) (fun _ t => Q t.view) (fun e t => E e t.view)
      (ingestFetch accountId folder uidvalidity uid body internalDate flags) s := by
  have hdate : SafeAct (viewContract allowed V G) (fun _ t => t.view = s.view) (fun e t => E e t.view)
      (dateOrNow internalDate) s := by
    cases internalDate with
    | some date => exact SafeAct.pure fun t _ hr => hr ▸ rfl
    | none => exact perform_view refl (fun _ v => v = s.view) E hV (fun _ _ => rfl) fun _ _ => rfl
  apply SafeAct.seq viewContract_stable hdate
  intro date t _ ht
  refine SafeAct.seq viewContract_stable (ingestRaw_view refl Q E (ht ▸ hV) (ht ▸ failed) ?_) fun _ u hu hq =>
    perform_view refl (fun _ v => Q v) E hu (fun _ _ => rfl) fun _ _ => hq
  rw [ht]
  exact fun payload hp => h payload hp.1 hp.2.1 hp.2.2.1 hp.2.2.2.1 hp.2.2.2.2

theorem uidFetch_view {folder : FolderConfig} {mailbox : Mailbox} {fromUid toUid : U32}
    (Q : List (Except ImapError Fetch) → SyncView → Prop) (E : Error → SyncView → Prop)
    (hV : V (s.view.push (.fetched folder.id fromUid toUid)))
    (hG : G s.view (s.view.push (.fetched folder.id fromUid toUid)))
    (failed : ∀ e, E e (s.view.push (.fetched folder.id fromUid toUid)))
    (h : ∀ items, allowed s (.uidFetch folder mailbox fromUid toUid) (.ok items) →
      Q items (s.view.push (.fetched folder.id fromUid toUid))) :
    SafeAct (viewContract allowed V G) (fun items t => Q items t.view) (fun e t => E e t.view)
      (uidFetch folder mailbox fromUid toUid) s := by
  have hop : SafeAct (viewContract allowed V G) (fun (r : Except ImapError (List (Except ImapError Fetch))) t =>
      t.view = s.view.push (.fetched folder.id fromUid toUid) ∧ ∀ items, r = .ok items → Q items t.view)
      (fun e t => E e t.view) (perform (.uidFetch folder mailbox fromUid toUid)) s := by
    apply perform_rule
    rintro _ - rfl c hc
    refine ⟨hV, hG, ?_⟩
    rintro _ - rfl
    exact ⟨rfl, fun items hi => h items (hi ▸ hc)⟩
  apply SafeAct.seq viewContract_stable hop
  intro r t _ ht
  cases r with
  | ok items => exact SafeAct.pure fun u _ hr => hr ▸ ht.2 items rfl
  | error e => exact SafeAct.throw fun u _ hr => hr ▸ ht.1 ▸ failed _

theorem selectFolder_view (refl : ∀ v, G v v) {folder : FolderConfig} (Q : Mailbox → SyncView → Prop)
    (E : Error → SyncView → Prop) (hV : V s.view)
    (failed : ∀ e, E e s.view)
    (h : ∀ mailbox, allowed s (.select folder) (.ok mailbox) →
      let v := s.view.push (.selected folder mailbox (recordedUidvalidity s.view.folders folder.id))
      V v ∧ G s.view v ∧ Q mailbox v) :
    SafeAct (viewContract allowed V G) (fun mailbox t => Q mailbox t.view) (fun e t => E e t.view)
      (selectFolder folder) s := by
  have hop : SafeAct (viewContract allowed V G) (fun (r : Except ImapError Mailbox) t =>
      (∀ mailbox, r = .ok mailbox → Q mailbox t.view) ∧ ∀ e', r = .error e' → ∀ e, E e t.view)
      (fun e t => E e t.view) (perform (.select folder)) s := by
    apply perform_rule
    rintro _ - rfl c hc
    cases c with
    | ok mailbox =>
      obtain ⟨h1, h2, h3⟩ := h mailbox hc
      refine ⟨h1, h2, ?_⟩
      rintro _ - rfl
      exact ⟨fun _ hm => Except.ok.inj hm ▸ h3, fun _ he => (by cases he)⟩
    | error e => exact ⟨hV, refl _, by rintro _ - rfl; exact ⟨fun _ hm => (by cases hm), fun _ _ => failed⟩⟩
  apply SafeAct.seq viewContract_stable hop
  intro r t _ ht
  rcases r with (text | text) | mailbox
  · exact SafeAct.throw fun u _ hr => hr ▸ ht.2 _ rfl _
  · exact SafeAct.throw fun u _ hr => hr ▸ ht.2 _ rfl _
  · exact SafeAct.pure fun u _ hr => hr ▸ ht.1 mailbox rfl

/-- The rollover, call by call: entered, cursor reset, locations dropped. -/
theorem handleUidvalidityChange_view (refl : ∀ v, G v v) {folderId : FolderId}
    {uidvalidity : U32} (Q : SyncView → Prop)
    (E : Error → SyncView → Prop)
    (entered : let v := s.view.push (.rollover folderId uidvalidity); V v ∧ G s.view v ∧ ∀ e, E e v)
    (reset : ∀ now, s.view.Has folderId →
      let v := (s.view.push (.rollover folderId uidvalidity)).persist folderId uidvalidity 0 now
      V v ∧ G (s.view.push (.rollover folderId uidvalidity)) v ∧ (∀ e, E e v) ∧
        V (v.push (.dropped folderId)) ∧ G v (v.push (.dropped folderId)) ∧ Q (v.push (.dropped folderId))) :
    SafeAct (viewContract allowed V G) (fun _ t => Q t.view) (fun e t => E e t.view)
      (handleUidvalidityChange folderId uidvalidity) s := by
  obtain ⟨hV, hG, hE⟩ := entered
  refine SafeAct.seq viewContract_stable (note_view (· = s.view.push (.rollover folderId uidvalidity)) E hV hG rfl)
    fun _ t _ ht => ?_
  have hhas : t.view.Has folderId → s.view.Has folderId := by
    rw [ht]
    exact id
  have hreset : SafeAct (viewContract allowed V G) (fun _ u => (∀ e, E e u.view) ∧ V u.view ∧
      V (u.view.push (.dropped folderId)) ∧ G u.view (u.view.push (.dropped folderId)) ∧
        Q (u.view.push (.dropped folderId))) (fun e u => E e u.view)
          (recordSyncProgress folderId uidvalidity 0) t := by
    refine recordSyncProgress_view refl (fun v => (∀ e, E e v) ∧ V v ∧ V (v.push (.dropped folderId)) ∧
      G v (v.push (.dropped folderId)) ∧ Q (v.push (.dropped folderId))) E (ht ▸ hV) (ht ▸ hE) fun now hrow => ?_
    obtain ⟨h1, h2, h3, h4⟩ := reset now (hhas hrow)
    rw [ht]
    exact ⟨h1, h2, h3, h1, h4⟩
  apply SafeAct.seq viewContract_stable hreset
  intro _ u _ hu
  refine SafeAct.seq viewContract_stable (transact_view (fun _ => Q) E fun c _ => ?_) fun _ v _ hq =>
    SafeAct.pure fun w _ hr => hr ▸ hq
  rcases u.transact_deleteLocations folderId c with ⟨e, he⟩ | ⟨n, hok⟩
  · rw [he]
    exact ⟨hu.2.1, refl _, fun _ h => (by cases h), fun e' _ => hu.1 e'⟩
  · rw [hok]
    exact ⟨hu.2.2.1, hu.2.2.2.1, fun _ _ => hu.2.2.2.2, fun _ h => (by cases h)⟩

end Alone
end MailKeep
