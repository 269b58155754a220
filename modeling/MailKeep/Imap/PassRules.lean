import MailKeep.Imap.SyncFolder

/-! Proof rules for a sync pass: what to show of one answer and of one window to have it of the pass. -/
namespace MailKeep
open Program Backend

variable {computeHash : Bytes → ContentHash} {C : Contract (backend computeHash)} {err : Error → World → Prop}

theorem perform_rule {o : BackendOp} {ok : o.Value → World → Prop} {s : World}
    (h : ∀ s₁, C.valid s₁ → C.rely s s₁ → ∀ c : o.Choice, C.allowed s₁ o c →
      C.valid (backendExec computeHash o c s₁).2 ∧ C.guar s₁ (backendExec computeHash o c s₁).2 ∧
        ∀ t, C.valid t → C.rely (backendExec computeHash o c s₁).2 t → ok (backendExec computeHash o c s₁).1 t) :
    SafeAct C ok err (perform o) s := h

theorem transact_rule {t : Txn} {ok : t.Result → World → Prop} {s : World}
    (h : ∀ s₁, C.valid s₁ → C.rely s s₁ → ∀ c, C.allowed s₁ (.transact t) c →
      C.valid (s₁.transact t c).2 ∧ C.guar s₁ (s₁.transact t c).2 ∧
        ∀ u, C.valid u → C.rely (s₁.transact t c).2 u →
          (∀ r, (s₁.transact t c).1 = .ok r → ok r u) ∧ ∀ e, (s₁.transact t c).1 = .error e → err e u) :
    SafeAct C ok err (transact t) s :=
  @SafeAct.call (backend computeHash) _ _ C ok err (.transact t) id s h

/-- A transaction that is ready; `ok` holds of what it leaves where it goes through, and stays. -/
theorem transact_ready {ready : World → BackendOp → Prop} (keeps : C.Readied ready)
    {x : Txn} {ok : x.Result → World → Prop}
    {s : World} (stays : ∀ r s t, C.rely s t → ok r s → ok r t)
    (at_call : ∀ s₁, C.valid s₁ → C.rely s s₁ → ready s₁ (.transact x))
    (failed : ∀ e c s₁ t, C.valid s₁ → C.rely s s₁ → C.allowed s₁ (.transact x) c → (s₁.transact x c).1 = .error e → err e t)
    (through : ∀ s₁ d r db, C.valid s₁ → C.rely s s₁ → x.body d s₁.db = .ok (r, db) →
      ok r { s₁ with db := db, log := (x.event? r).toList ++ s₁.log }) :
    SafeAct C ok err (transact x) s := by
  refine SafeAct.ready keeps (o := BackendOp.transact x) (k := id) at_call
    fun s₁ c hv hr hc t ht => ⟨fun r h => ?_, fun e h => ?_⟩
  · change (s₁.transact x c).1 = .ok r at h
    change C.rely (s₁.transact x c).2 t at ht
    rcases s₁.transact_cases x c with ⟨e, he⟩ | ⟨d, r', db, -, hbody, hok⟩
    · rw [he] at h
      cases h
    · rw [hok] at h ht
      cases h
      exact stays _ _ _ ht (through s₁ d _ db hv hr hbody)
  · exact failed e c s₁ t hv hr hc h

/-- One of which nothing is asked but that it is ready. -/
theorem transact_plain {ready : World → BackendOp → Prop} (keeps : C.Readied ready) {x : Txn} {s : World}
    (at_call : ∀ s₁, C.valid s₁ → C.rely s s₁ → ready s₁ (.transact x)) :
    SafeAct C (fun _ _ => True) (fun _ _ => True) (transact x) s :=
  transact_ready keeps (fun _ _ _ _ _ => trivial) at_call (fun _ _ _ _ _ _ _ _ => trivial)
    fun _ _ _ _ _ _ _ => trivial

section Windows
variable {upper : Option U32} {fromUid : U32}

/-- Unless it is the last, a window is a whole batch and the next one starts right after it. -/
theorem windowEnd_next {fetchedAny : Bool} (h : lastWindow upper (windowEnd upper fromUid) fetchedAny = false) :
    (windowEnd upper fromUid).val = fromUid.val + 199 ∧
      ((windowEnd upper fromUid).saturatingAdd 1).val = fromUid.val + 200 := by
  have hb : (FETCH_BATCH - 1 : U32).val = 199 := rfl
  have h1 : (1 : U32).val = 1 := rfl
  cases upper with
  | some u =>
    simp only [lastWindow, windowEnd, decide_eq_false_iff_not, Fin.le_def, not_le] at h ⊢
    rcases le_total (fromUid.saturatingAdd (FETCH_BATCH - 1)) u with hle | hle
    · rw [min_eq_left hle] at h ⊢
      simp only [U32.val_saturatingAdd, hb, h1] at h ⊢
      omega
    · rw [min_eq_right hle] at h
      omega
  | none =>
    simp only [lastWindow, windowEnd, Bool.or_eq_false_iff, decide_eq_false_iff_not, Fin.ext_iff,
      U32.val_saturatingAdd, U32.val_maxValue, hb, h1] at h ⊢
    omega

theorem windowEnd_le_max : fromUid.val ≤ (windowEnd none fromUid).val := by
  have hb : (FETCH_BATCH - 1 : U32).val = 199 := rfl
  simp only [windowEnd, U32.val_saturatingAdd, hb]
  omega

end Windows

section Rules
variable {accountId : AccountId} {folder : FolderConfig} {mailbox : Mailbox} {uidvalidity : U32}

/-- An assertion that what the other threads do cannot break. -/
def Kept (C : Contract (backend computeHash)) (P : World → Prop) : Prop :=
  ∀ s t, P s → C.valid t → C.rely s t → P t

/-- `J` leads from answer to answer: each ingested one, each one passed over, and a broken one. -/
structure Reading (C : Contract (backend computeHash)) (err : Error → World → Prop) (accountId : AccountId)
    (folder : FolderConfig) (uidvalidity : U32) (J : List (Except ImapError Fetch) → Progress → World → Prop) :
    Prop where
  kept : ∀ items p, Kept C (J items p)
  one : ∀ uid body internalDate flags items p s, C.valid s →
    J (.ok ⟨some uid, some body, internalDate, flags⟩ :: items) p s →
    SafeAct C (fun _ t => J items ⟨max p.high uid, true, p.ingested + 1⟩ t) err
      (ingestFetch accountId folder uidvalidity uid body internalDate flags) s
  skip : ∀ fetch items p s, C.valid s → fetch.uid = none ∨ fetch.body = none →
    J (.ok fetch :: items) p s → J items p s
  broken : ∀ e items p s, C.valid s → J (.error e :: items) p s →
    err (.infrastructure ("FETCH item error: " ++ e.text)) s

private theorem ingestAll_rule (st : C.Stable) {J : List (Except ImapError Fetch) → Progress → World → Prop}
    (R : Reading C err accountId folder uidvalidity J) (items : List (Except ImapError Fetch)) (p : Progress)
    (s : World) (hv : C.valid s) (hJ : J items p s) :
    SafeAct C (fun p t => J [] p t) err (ingestAll accountId folder uidvalidity items p) s := by
  induction items generalizing p s with
  | nil => exact SafeAct.pure fun t ht hr => R.kept _ _ _ _ hJ ht hr
  | cons item items ih =>
    rcases item with e | ⟨uid, body, internalDate, flags⟩
    · exact SafeAct.throw fun t ht hr => R.broken e items p t ht (R.kept _ _ _ _ hJ ht hr)
    · rcases uid with _ | uid
      · exact ih p s hv (R.skip _ _ _ _ hv (.inl rfl) hJ)
      rcases body with _ | body
      · exact ih p s hv (R.skip _ _ _ _ hv (.inr rfl) hJ)
      · exact SafeAct.seq st (R.one uid body internalDate flags items p s hv hJ) fun _ t ht hJ' => ih _ t ht hJ'

/-- A window: the FETCH, its answers, and the checkpoint where it had mail. -/
theorem syncWindow_rule (st : C.Stable) {fromUid toUid : U32} {p : Progress} {post : Progress → World → Prop}
    (J : List (Except ImapError Fetch) → Progress → World → Prop) {s : World}
    (R : Reading C err accountId folder uidvalidity J) (kept : ∀ p, Kept C (post p))
    (fetch : SafeAct C (fun items t => J items { p with fetchedAny := false } t) err
      (uidFetch folder mailbox fromUid toUid) s)
    (checkpoint : ∀ p s, C.valid s → J [] p s → p.fetchedAny = true →
      SafeAct C (fun _ t => post p t) err (recordSyncProgress folder.id uidvalidity p.high) s)
    (empty : ∀ p s, C.valid s → J [] p s → p.fetchedAny = false → post p s) :
    SafeAct C post err (syncWindow accountId folder mailbox uidvalidity fromUid toUid p) s := by
  apply SafeAct.seq st fetch
  intro items t ht hJ
  apply SafeAct.seq st (ingestAll_rule st R items _ t ht hJ)
  intro p' t ht hJ
  split
  · rename_i hf
    exact SafeAct.seq st (checkpoint p' t ht hJ hf) fun _ u hu hp => SafeAct.pure fun v hv hr => kept _ _ _ hp hv hr
  · rename_i hf
    exact SafeAct.pure fun v hv hr => kept _ _ _ (empty p' t ht hJ (by simpa using hf)) hv hr

/-- `I` holds before each window; the last window leads to `final`. The rounds never run out. -/
private theorem scan_rule (st : C.Stable) {upper : Option U32} (I : U32 → Progress → World → Prop)
    (final : Progress → World → Prop) (kept : ∀ p, Kept C (final p))
    (window : ∀ fromUid p s, C.valid s → I fromUid p s →
      SafeAct C (fun p' t =>
          if lastWindow upper (windowEnd upper fromUid) p'.fetchedAny then final p' t
          else I ((windowEnd upper fromUid).saturatingAdd 1) p' t) err
        (syncWindow accountId folder mailbox uidvalidity fromUid (windowEnd upper fromUid) p) s)
    (rounds : Nat) (fromUid : U32) (p : Progress) (s : World) (enough : 4294967296 ≤ fromUid.val + rounds)
    (hv : C.valid s) (hI : I fromUid p s) :
    SafeAct C final err (scan accountId folder mailbox uidvalidity upper rounds fromUid p) s := by
  induction rounds generalizing fromUid p s with
  | zero => omega
  | succ rounds ih =>
    apply SafeAct.seq st (window fromUid p s hv hI)
    intro p' t ht hp
    split
    · rename_i hl
      rw [if_pos hl] at hp
      exact SafeAct.pure fun u hu hr => kept _ _ _ hp hu hr
    · rename_i hl
      rw [if_neg hl] at hp
      have := (windowEnd_next (by simpa using hl)).2
      exact ih _ p' t (by omega) ht hp

/-- A pass after its UIDVALIDITY check, from the cursor `c` on. -/
theorem syncFrom_rule (st : C.Stable) {c : U32} (ready : World → Prop) (I : U32 → Progress → World → Prop)
    (final : Progress → World → Prop) (done : U32 → World → Prop) (keptFinal : ∀ p, Kept C (final p))
    (keptDone : ∀ h, Kept C (done h))
    (status : ∀ s, C.valid s → ready s →
      SafeAct C (fun _ t => ready t) err (perform (.setStatus accountId .syncing)) s)
    (nothing : mailbox.upper.any (· < c.saturatingAdd 1) = true → ∀ s, C.valid s → ready s →
      SafeAct C (fun _ t => done c t) err (recordSyncProgress folder.id uidvalidity c) s)
    (start : mailbox.upper.any (· < c.saturatingAdd 1) = false → ∀ s, C.valid s → ready s →
      I (c.saturatingAdd 1) ⟨c, false, 0⟩ s)
    (window : ∀ fromUid p s, C.valid s → I fromUid p s →
      SafeAct C (fun p' t =>
          if lastWindow mailbox.upper (windowEnd mailbox.upper fromUid) p'.fetchedAny then final p' t
          else I ((windowEnd mailbox.upper fromUid).saturatingAdd 1) p' t) err
        (syncWindow accountId folder mailbox uidvalidity fromUid (windowEnd mailbox.upper fromUid) p) s)
    (stamp : ∀ p s, C.valid s → final p s → p.ingested = 0 →
      SafeAct C (fun _ t => done p.high t) err (recordSyncProgress folder.id uidvalidity p.high) s)
    (ingested : ∀ p s, C.valid s → final p s → p.ingested ≠ 0 → done p.high s)
    {s : World} (hv : C.valid s) (hs : ready s) :
    SafeAct C (fun r t => r.2 = uidvalidity ∧ done r.1 t) err
      (syncFrom accountId folder mailbox uidvalidity c) s := by
  apply SafeAct.seq st (status s hv hs)
  intro _ t ht hr
  dsimp only
  split
  · rename_i hup
    exact SafeAct.seq st (nothing hup t ht hr) fun _ u hu hd => SafeAct.pure fun v hv hrv =>
      ⟨rfl, keptDone _ _ _ hd hv hrv⟩
  · rename_i hup
    refine SafeAct.seq st (scan_rule st I final keptFinal window _ _ _ t ?_ ht
      (start (by simpa using hup) t ht hr)) fun p u hu hf => ?_
    · exact Nat.le_add_left _ _
    split
    · rename_i h0
      exact SafeAct.seq st (stamp p u hu hf h0) fun _ v hv hd => SafeAct.pure fun w hw hrw =>
        ⟨rfl, keptDone _ _ _ hd hw hrw⟩
    · rename_i h0
      exact SafeAct.pure fun w hw hrw => ⟨rfl, keptDone _ _ _ (ingested p u hu hf h0) hw hrw⟩

end Rules

section Whole
variable {accountId : AccountId} {folder : FolderConfig} {K : World → Prop}
    {Opened : Mailbox → Prop} {Answer : Fetch → Prop}

/-- The action leaves `K` where it succeeds. -/
abbrev Keeping {α : Type} (C : Contract (backend computeHash)) (K : World → Prop)
    (x : BackendAction α) (s : World) : Prop :=
  SafeAct C (fun _ => K) (fun _ _ => True) x s

/-- What a whole pass needs to keep an assertion `K`: of the mailbox and of each answer it may use
`Opened` and `Answer`. -/
structure Passing (C : Contract (backend computeHash)) (accountId : AccountId)
    (folder : FolderConfig) (K : World → Prop)
    (Opened : Mailbox → Prop) (Answer : Fetch → Prop) : Prop where
  stable : C.Stable
  kept : Kept C K
  select : ∀ s, C.valid s → K s →
    SafeAct C (fun r t => K t ∧ ∀ mailbox, r = .ok mailbox → Opened mailbox) (fun (_ : Error) _ => True)
      (perform (.select folder)) s
  check : ∀ mailbox uidvalidity s, Opened mailbox → mailbox.uidValidity = some uidvalidity → C.valid s → K s →
    Keeping C K (checkUidvalidity folder uidvalidity) s
  now : ∀ s, C.valid s → K s → Keeping C K (perform .now) s
  status : ∀ change s, C.valid s → K s → Keeping C K (perform (.setStatus accountId change)) s
  fetch : ∀ mailbox fromUid toUid s, C.valid s → K s →
    SafeAct C (fun r t => K t ∧ ∀ items, r = .ok items → ∀ f, .ok f ∈ items → Answer f) (fun (_ : Error) _ => True)
      (perform (.uidFetch folder mailbox fromUid toUid)) s
  ingest : ∀ mailbox uidvalidity uid body date internalDate flags s, Opened mailbox →
    mailbox.uidValidity = some uidvalidity →
    Answer ⟨some uid, some body, date, flags⟩ → C.valid s → K s →
    Keeping C K (ingestRaw ⟨accountId, folder.id, uid, uidvalidity, internalDate, mapFlags flags, body⟩) s
  progress : ∀ mailbox uidvalidity lastUid now s, Opened mailbox →
    mailbox.uidValidity = some uidvalidity → C.valid s → K s →
    Keeping C K (transact (.recordSyncProgress folder.id uidvalidity lastUid now)) s

theorem Passing.recordSyncProgress (P : Passing C accountId folder K Opened Answer)
    {mailbox : Mailbox} {uidvalidity : U32}
    (opened : Opened mailbox) (hu : mailbox.uidValidity = some uidvalidity) (lastUid : U32)
    {s : World} (hv : C.valid s)
    (hK : K s) : Keeping C K (recordSyncProgress folder.id uidvalidity lastUid) s :=
  SafeAct.seq P.stable (P.now s hv hK) fun now t ht hKt =>
    P.progress mailbox uidvalidity lastUid now t opened hu ht hKt

theorem Passing.ingestFetch (P : Passing C accountId folder K Opened Answer) {mailbox : Mailbox}
    {uidvalidity uid : U32}
    {body : Bytes} {internalDate : Option DateTimeUtc} {flags : List Flag} (opened : Opened mailbox)
    (hu : mailbox.uidValidity = some uidvalidity) (answer : Answer ⟨some uid, some body, internalDate, flags⟩) {s : World}
    (hv : C.valid s) (hK : K s) :
    Keeping C K (ingestFetch accountId folder uidvalidity uid body internalDate flags) s := by
  have date : Keeping C K (dateOrNow internalDate) s := by
    cases internalDate with
    | some date => exact SafeAct.pure fun t ht hr => P.kept _ _ hK ht hr
    | none => exact P.now s hv hK
  apply SafeAct.seq P.stable date
  intro date t ht hKt
  exact SafeAct.seq P.stable (P.ingest mailbox uidvalidity uid body internalDate date flags t opened hu answer ht hKt)
    fun _ u hu hKu => P.status .ingestedMessage u hu hKu

theorem Passing.reading (P : Passing C accountId folder K Opened Answer) {mailbox : Mailbox} {uidvalidity : U32}
    (opened : Opened mailbox) (hu : mailbox.uidValidity = some uidvalidity) :
    Reading C (fun _ _ => True) accountId folder uidvalidity fun items _ s => K s ∧
      ∀ f, .ok f ∈ items → Answer f where
  kept := fun _ _ _ _ h hv hr => ⟨P.kept _ _ h.1 hv hr, h.2⟩
  one := fun uid body internalDate flags items p s hv h =>
    (P.ingestFetch opened hu (h.2 _ List.mem_cons_self) hv h.1).weaken fun r t _ ht => by
      cases r with
      | ok _ => exact ⟨ht, fun f hf => h.2 f (List.mem_cons_of_mem _ hf)⟩
      | error _ => trivial
  skip := fun _ _ _ _ _ _ h => ⟨h.1, fun f hf => h.2 f (List.mem_cons_of_mem _ hf)⟩
  broken := fun _ _ _ _ _ _ => trivial

theorem Passing.window (P : Passing C accountId folder K Opened Answer) {mailbox : Mailbox} {uidvalidity : U32}
    (opened : Opened mailbox) (hu : mailbox.uidValidity = some uidvalidity) {fromUid toUid : U32}
    {p : Progress} {s : World}
    (hv : C.valid s) (hK : K s) :
    Keeping C K (syncWindow accountId folder mailbox uidvalidity fromUid toUid p) s := by
  refine syncWindow_rule P.stable _ (P.reading opened hu) (fun _ => P.kept) ?_
    (fun p t ht h _ => P.recordSyncProgress opened hu p.high ht h.1) fun _ _ _ h _ => h.1
  refine SafeAct.seq P.stable (P.fetch mailbox fromUid toUid s hv hK) fun r t ht h => ?_
  cases r with
  | ok items => exact SafeAct.pure fun u hu hr => ⟨P.kept _ _ h.1 hu hr, h.2 items rfl⟩
  | error e => exact SafeAct.throw fun _ _ _ => trivial

/-- A pass keeps `K`, however it ends. -/
theorem Passing.pass (P : Passing C accountId folder K Opened Answer) {s : World} (hv : C.valid s) (hK : K s) :
    Harmless C (syncFolder accountId folder) s := by
  have select : SafeAct C (fun mailbox t => K t ∧ Opened mailbox) (fun (_ : Error) _ => True)
      (selectFolder folder) s := by
    apply SafeAct.seq P.stable (P.select s hv hK)
    intro r t ht h
    rcases r with (text | text) | mailbox
    · exact SafeAct.throw fun _ _ _ => trivial
    · exact SafeAct.throw fun _ _ _ => trivial
    · exact SafeAct.pure fun u hu hr => ⟨P.kept _ _ h.1 hu hr, h.2 mailbox rfl⟩
  refine SafeAct.seq P.stable select fun mailbox t ht ⟨hKt, opened⟩ => ?_
  unfold serverUidvalidity
  cases hu : mailbox.uidValidity with
  | none => exact Harmless.throw
  | some uidvalidity =>
    change SafeAct _ _ _ (checkUidvalidity folder uidvalidity >>= _) t
    apply SafeAct.seq P.stable (P.check mailbox uidvalidity t opened hu ht hKt)
    intro c u hv' hK'
    refine Safe.weaken (syncFrom_rule P.stable K (fun _ _ => K) (fun _ => K) (fun _ => K) (fun _ => P.kept) (fun _ => P.kept)
      (P.status .syncing) (fun _ s hv hK => P.recordSyncProgress opened hu c hv hK) (fun _ _ _ h => h) ?_
      (fun p s hv hK _ => P.recordSyncProgress opened hu p.high hv hK) (fun _ _ _ h _ => h) hv' hK')
      fun r _ _ _ => ?_
    · intro fromUid p s hv hK
      apply (P.window opened hu hv hK).weaken
      intro r x _ hx
      cases r with
      | ok p' => simpa only [ite_self] using hx
      | error e => trivial
    · cases r <;> trivial

end Whole
end MailKeep
