import MailKeep.Accounts.Installation
import MailKeep.Search.IndexRuns
import MailKeep.Users.Login

/-! Deletions of accounts between batches of the indexer and jobs of the parser: what stays of an account that
has been deleted. -/
namespace MailKeep
open Program

namespace Installation

/-- The store has something of the account; of the index, only what is committed counts. -/
def Holds (s : Installation) (accountId : AccountId) : Store → Prop
  | .raw => ∃ hash, s.world.raw accountId hash ≠ none
  | .attachments => ∃ hash, s.world.attachments accountId hash ≠ none
  | .docs => ∃ d ∈ s.docs, d.accountId = accountId

/-- Nothing of the account is left outside the database. -/
def Erased (s : Installation) (accountId : AccountId) : Prop := ∀ store, ¬ s.Holds accountId store

def Clear (s : Installation) : Prop := ∀ accountId store, s.cleaned accountId store = true →
    ¬ s.Holds accountId store

/-- The operation writes nothing of an account into a store that has been cleaned of it: no blob is placed,
and no commit takes along a document that the writer holds. -/
def Spares (s : Installation) : (o : InstallationOp) → o.Choice → Prop
  | .backend (.putRaw accountId _), c => c.all PutFault.placed = true → s.cleaned accountId .raw = false
  | .backend (.putAttachment accountId _), c => c.all PutFault.placed = true →
    s.cleaned accountId .attachments = false
  | .index .commit, c => c.all Fault.done = true → ∀ d ∈ s.writer, s.cleaned d.accountId .docs = false
  | .remove accountId .docs, c =>
    c.all (fun f => f.termDeleted && f.committed) = true →
      ∀ d ∈ s.writer, d.accountId ≠ accountId → s.cleaned d.accountId .docs = false
  | _, _ => True

/-- Nothing of the history is forgotten. -/
def Grows (s t : Installation) : Prop :=
  (∀ accountId store, s.cleaned accountId store = true → t.cleaned accountId store = true) ∧
    ∀ warning ∈ s.warnings, warning ∈ t.warnings

/-- The cleanup of the store was done, or it failed and was reported. -/
def Dealt (s : Installation) (accountId : AccountId) (store : Store) : Prop :=
  s.cleaned accountId store = true ∨ (accountId, store) ∈ s.warnings

variable {s t u : Installation}

theorem Grows.refl (s : Installation) : s.Grows s := ⟨fun _ _ h => h, fun _ h => h⟩

theorem Grows.trans (h : s.Grows t) (h' : t.Grows u) : s.Grows u :=
  ⟨fun a st hc => h'.1 a st (h.1 a st hc), fun w hw => h'.2 w (h.2 w hw)⟩

theorem Dealt.mono {accountId : AccountId} {store : Store} (h : s.Dealt accountId store) (grows : s.Grows t) :
    t.Dealt accountId store :=
  h.imp (grows.1 accountId store) (grows.2 _)

theorem Clear.of_le (h : s.Clear) (same : t.cleaned = s.cleaned)
    (fewer : ∀ accountId store, t.Holds accountId store → s.Holds accountId store) : t.Clear :=
  fun accountId store cleaned holds => h accountId store (same ▸ cleaned) (fewer accountId store holds)

theorem holds_congr (raw : t.world.raw = s.world.raw) (attachments : t.world.attachments = s.world.attachments)
    (docs : t.docs = s.docs) (accountId : AccountId) (store : Store) :
    t.Holds accountId store ↔ s.Holds accountId store := by
  cases store with
  | raw => simp only [Holds, raw]
  | attachments => simp only [Holds, attachments]
  | docs => simp only [Holds, docs]

theorem Clear.congr (h : s.Clear) (raw : t.world.raw = s.world.raw)
    (attachments : t.world.attachments = s.world.attachments)
    (docs : t.docs = s.docs) (cleaned : t.cleaned = s.cleaned) : t.Clear :=
  h.of_le cleaned fun accountId store => (holds_congr raw attachments docs accountId store).mp

/-- Apart from a commit, the indexer adds nothing to the committed documents. -/
private theorem indexExec_docs {o : IndexOp} {c : o.Choice} (other : o ≠ .commit) :
    ∀ d ∈ (s.putIndex (indexExec o c s.indexWorld).2).docs, d ∈ s.docs := by
  have fault : ∀ {ε ε' α : Type} (f : ε → ε') (a : α) (w : IndexWorld) (c : Option (Fault ε)),
      (∀ d ∈ (s.putIndex w).docs, d ∈ s.docs) →
        ∀ d ∈ (s.putIndex (fallible f a s.indexWorld w c).2).docs, d ∈ s.docs := by
    intro ε ε' α f a w c h
    rcases c with _ | ⟨e, _ | _⟩
    · exact h
    · exact fun d hd => hd
    · exact h
  have same : ∀ d ∈ (s.putIndex s.indexWorld).docs, d ∈ s.docs := fun d hd => hd
  cases o with
  | commit => exact absurd rfl other
  | createDirAll | lockWriter | listUnindexed _ => exact fault _ _ _ c same
  | truncateSidecar | deleteAllDocuments | addDocument _ | resetAllIndexed | markIndexed _ =>
    exact fault _ _ _ c fun d hd => hd
  | removeEntry entry =>
    apply fault _ _ _ c
    cases entry with
    | segment holds => exact fun d hd => (List.mem_filter.mp hd).1
    | metaFile | versionFile | other => exact fun d hd => hd
  | openOrCreate schema =>
    simp only [indexExec, indexWorld]
    split
    · exact fun d hd => hd
    · split <;> exact fun d hd => hd
  | writeSidecar text =>
    rcases c with _ | ⟨e, left⟩
    · exact fun d hd => hd
    · exact fun d hd => hd
  | openIndex | readDir | readSidecar | deleteTerm _ | getRaw _ | serve => exact fun d hd => hd

/-- A step that puts something of one account into one store keeps what is cleaned empty just where it spares that store. -/
theorem Clear.adds (h : s.Clear) (t : Installation) (same : t.cleaned = s.cleaned)
    {target : AccountId} {into : Store} {happens : Prop}
    (adds : ∀ accountId store,
      t.Holds accountId store ↔ s.Holds accountId store ∨ happens ∧ accountId = target ∧ store = into) :
    t.Clear ↔ (happens → s.cleaned target into = false) := by
  constructor
  · intro clear hp
    by_contra cleaned
    refine clear target into (same ▸ by simpa using cleaned) ((adds target into).mpr (.inr ⟨hp, rfl, rfl⟩))
  · intro spares accountId store cleaned holds
    rw [same] at cleaned
    rcases (adds accountId store).mp holds with before | ⟨hp, rfl, rfl⟩
    · exact h accountId store cleaned before
    · rw [spares hp] at cleaned
      cases cleaned

/-- A step that makes these the committed documents. -/
theorem Clear.commits (h : s.Clear) (t : Installation) (same : t.cleaned = s.cleaned)
    (raw : t.world.raw = s.world.raw)
    (attachments : t.world.attachments = s.world.attachments) :
    t.Clear ↔ ∀ d ∈ t.docs, s.cleaned d.accountId .docs = false := by
  constructor
  · intro clear d hd
    by_contra cleaned
    exact clear d.accountId .docs (same ▸ by simpa using cleaned) ⟨d, hd, rfl⟩
  · intro spares accountId store cleaned holds
    rw [same] at cleaned
    cases store with
    | raw => exact h accountId .raw cleaned (by simpa only [Holds, raw] using holds)
    | attachments => exact h accountId .attachments cleaned (by simpa only [Holds, attachments] using holds)
    | docs =>
      obtain ⟨d, hd, rfl⟩ := holds
      rw [spares d hd] at cleaned
      cases cleaned

private theorem clean_clear_iff {accountId : AccountId} {store : Store} (empty : ¬ s.Holds accountId store) :
    (s.clean accountId store).Clear ↔ s.Clear := by
  have same : ∀ a st, (s.clean accountId store).Holds a st ↔ s.Holds a st := fun a st =>
    holds_congr rfl rfl rfl a st
  constructor
  · intro clear a st cleaned holds
    exact clear a st (by simp [clean, cleaned]) ((same a st).mpr holds)
  · intro clear a st cleaned holds
    have holds := (same a st).mp holds
    simp only [clean, Bool.or_eq_true, decide_eq_true_eq] at cleaned
    rcases cleaned with ⟨rfl, rfl⟩ | cleaned
    · exact empty holds
    · exact clear a st cleaned holds

private theorem removePart_empty (s : Installation) (accountId : AccountId) (store : Store) :
    ¬ (s.removePart accountId none store).Holds accountId store := by
  cases store with
  | raw => simp [removePart, Holds, removeBlobs]
  | attachments => simp [removePart, Holds, removeBlobs]
  | docs =>
    rintro ⟨d, hd, rfl⟩
    exact absurd rfl (of_decide_eq_true (List.mem_filter.mp hd).2)

/-- Apart from the commit for the index, a removal only takes things away. -/
private theorem removePart_clear_iff (h : s.Clear) (accountId : AccountId) (c : Option RemoveFault) (store : Store) :
    (s.removePart accountId c store).Clear ↔ s.Spares (.remove accountId store) c := by
  have fewer : ∀ (st : AccountId → ContentHash → Option Bytes) (left : ContentHash → Bool) (a : AccountId),
      (∃ k, removeBlobs st accountId left a k ≠ none) → ∃ k, st a k ≠ none := by
    rintro st left a ⟨k, hk⟩
    refine ⟨k, fun none => hk ?_⟩
    unfold removeBlobs
    rw [none, ite_self]
  have through : ((s.deleteTerm accountId).commit).Clear ↔
      ∀ d ∈ s.writer, d.accountId ≠ accountId → s.cleaned d.accountId .docs = false := by
    rw [h.commits (s.deleteTerm accountId).commit rfl rfl rfl]
    exact ⟨fun all d hd other => all d (List.mem_filter.mpr ⟨hd, by simpa using other⟩),
      fun all d hd => all d (List.mem_filter.mp hd).1 (by simpa using (List.mem_filter.mp hd).2)⟩
  cases store with
  | raw =>
    refine iff_of_true (h.of_le rfl fun a st holds => ?_) trivial
    cases st with
    | raw => exact fewer _ _ a holds
    | attachments | docs => exact holds
  | attachments =>
    refine iff_of_true (h.of_le rfl fun a st holds => ?_) trivial
    cases st with
    | attachments => exact fewer _ _ a holds
    | raw | docs => exact holds
  | docs =>
    rcases c with _ | ⟨e, left, termDeleted, committed⟩
    · exact through.trans ⟨fun spares _ => spares, fun spares => spares rfl⟩
    · cases termDeleted with
      | false => exact iff_of_true h fun none => (by cases none)
      | true =>
        cases committed with
        | false => exact iff_of_true (h.congr rfl rfl rfl rfl) fun none => (by cases none)
        | true => exact through.trans ⟨fun spares _ => spares, fun spares => spares rfl⟩

variable {computeHash : Bytes → ContentHash} {platform : Platform} {cases : Unicode.CaseData}

/-- What has been cleaned stays empty through an operation just where the operation spares it. -/
private theorem Clear.step_iff (h : s.Clear) (o : InstallationOp) (c : o.Choice) :
    ((installation computeHash platform cases).exec o c s).2.Clear ↔ s.Spares o c := by
  have transacts : ∀ (body : Transaction Account) (c : Option DbErr), (s.transact body c).2.Clear := by
    intro body c
    unfold transact
    split
    · exact h
    · split
      · exact h
      · exact h.congr rfl rfl rfl rfl
  cases o with
  | getAccount userId accountId => exact iff_of_true (transacts _ c) trivial
  | deleteAccount userId accountId => exact iff_of_true (transacts _ c) trivial
  | user o => exact iff_of_true (h.congr rfl rfl rfl rfl) trivial
  | stopAccount accountId => exact iff_of_true (h.congr rfl rfl rfl rfl) trivial
  | warn accountId store => exact iff_of_true (h.congr rfl rfl rfl rfl) trivial
  | remove accountId store =>
    cases c with
    | none =>
      rw [← removePart_clear_iff h accountId none store]
      exact clean_clear_iff (s.removePart_empty accountId store)
    | some f => exact removePart_clear_iff h accountId (some f) store
  | index o =>
    by_cases ho : o = .commit
    · subst ho
      rcases c with _ | ⟨e, _ | _⟩
      · exact (h.commits { s.commit with locked := false } rfl rfl rfl).trans
          ⟨fun spares _ => spares, fun spares => spares rfl⟩
      · exact iff_of_true (h.congr rfl rfl rfl rfl) fun none => (by cases none)
      · exact (h.commits { s.commit with locked := false } rfl rfl rfl).trans
          ⟨fun spares _ => spares, fun spares => spares rfl⟩
    · have spares : s.Spares (.index o) c := by
        cases o with
        | commit => exact absurd rfl ho
        | _ => trivial
      refine iff_of_true (h.of_le rfl fun a st holds => ?_) spares
      cases st with
      | raw | attachments => exact holds
      | docs =>
        obtain ⟨d, hd, ha⟩ := holds
        exact ⟨d, indexExec_docs ho d hd, ha⟩
  | backend o =>
    by_cases hraw : ∃ accountId plaintext, o = .putRaw accountId plaintext
    · obtain ⟨accountId, plaintext, rfl⟩ := hraw
      refine h.adds ((installation computeHash platform cases).exec (.backend (.putRaw accountId plaintext)) c s).2 rfl
        fun a st => ?_
      cases st with
      | raw =>
        simp only [Holds, backendExec, putBlob_ne_none, exists_or, and_true, exists_and_left, exists_eq]
      | attachments | docs => simp [Holds, backendExec]
    by_cases hatt : ∃ accountId plaintext, o = .putAttachment accountId plaintext
    · obtain ⟨accountId, plaintext, rfl⟩ := hatt
      refine h.adds ((installation computeHash platform cases).exec (.backend (.putAttachment accountId plaintext)) c s).2 rfl
        fun a st => ?_
      cases st with
      | attachments =>
        simp only [Holds, backendExec, putBlob_ne_none, exists_or, and_true, exists_and_left, exists_eq]
      | raw | docs => simp [Holds, backendExec]
    obtain ⟨raw, attachments⟩ : (backendExec computeHash o c s.world).2.raw = s.world.raw ∧
        (backendExec computeHash o c s.world).2.attachments = s.world.attachments :=
      backendExec_stores (fun a p he => hraw ⟨a, p, he⟩) fun a p he => hatt ⟨a, p, he⟩
    have spares : s.Spares (.backend o) c := by
      cases o with
      | putRaw a p => exact absurd ⟨a, p, rfl⟩ hraw
      | putAttachment a p => exact absurd ⟨a, p, rfl⟩ hatt
      | _ => trivial
    exact iff_of_true (h.congr raw attachments rfl rfl) spares

theorem removePart_history (s : Installation) (accountId : AccountId) (c : Option RemoveFault) (store : Store) :
    (s.removePart accountId c store).cleaned = s.cleaned ∧
      (s.removePart accountId c store).warnings = s.warnings := by
  cases store with
  | raw | attachments => exact ⟨rfl, rfl⟩
  | docs =>
    rcases c with _ | ⟨e, left, _ | _, _ | _⟩
    all_goals exact ⟨rfl, rfl⟩

private theorem exec_grows (o : InstallationOp) (c : o.Choice) (s : Installation) :
    s.Grows ((installation computeHash platform cases).exec o c s).2 := by
  have same : ∀ t : Installation, t.cleaned = s.cleaned → t.warnings = s.warnings → s.Grows t :=
    fun t hc hw => ⟨fun a st h => hc ▸ h, fun w h => hw ▸ h⟩
  have transacts : ∀ (body : Transaction Account) (c : Option DbErr), s.Grows (s.transact body c).2 := by
    intro body c
    unfold transact
    split
    · exact .refl s
    · split
      · exact .refl s
      · exact same _ rfl rfl
  cases o with
  | getAccount userId accountId => exact transacts _ c
  | deleteAccount userId accountId => exact transacts _ c
  | backend o | index o | user o => exact same _ rfl rfl
  | stopAccount accountId => exact same _ rfl rfl
  | warn accountId store => exact ⟨fun _ _ h => h, fun _ h => List.mem_cons_of_mem _ h⟩
  | remove accountId store =>
    obtain ⟨cleaned, warnings⟩ := s.removePart_history accountId c store
    cases c with
    | none =>
      refine ⟨fun a st h => ?_, fun w h => warnings ▸ h⟩
      change (decide (a = accountId ∧ st = store) || (s.removePart accountId none store).cleaned a st) = true
      rw [cleaned, h, Bool.or_true]
    | some f => exact same _ cleaned warnings

end Installation
open Installation

section
variable (computeHash : Bytes → ContentHash) (platform : Platform) (cases : Unicode.CaseData)

/-- A thread of the installation: the indexer, a worker with a job, or a deletion that is asked for. -/
inductive Activity
  | drain
  | parse (payload : ParseMessageJob)
  | delete (userId : UserId) (accountId : AccountId)

variable (tantivy : Tantivy) (extractBody : Bytes → Option String) (parseEml : ParseEml)

def Activity.program : Activity → Prog installationSignature (Except Error Unit)
  | drain => (onIndex.act (do let _ ← drainOnce tantivy extractBody)).run
  | parse payload => (onBackend.act (ParseMessageHandler.handle parseEml payload)).run
  | delete userId accountId => (deleteAccount userId accountId).run

def Installation.Unlocked (s : Installation) : InstallationOp → Prop
  | .index .lockWriter | .remove _ .docs => s.locked = false
  | _ => True

/-- Each thread runs its work as often as it likes, and nothing else happens; `met` limits what the steps may do. -/
def deletionSystem {ι : Type} (met : (installation computeHash platform cases).Allowed) (work : ι → Activity) :
    System (installation computeHash platform cases) ι (Except Error Unit) where
  allowed s o c := s.Unlocked o ∧ met s o c
  root _ i p := p = (work i).program tantivy extractBody parseEml
  env _ _ := False
  crash _ _ := False

end

section
variable {computeHash : Bytes → ContentHash} {platform : Platform} {cases : Unicode.CaseData}
  {tantivy : Tantivy} {extractBody : Bytes → Option String} {parseEml : ParseEml}

private def clearing (computeHash : Bytes → ContentHash) (platform : Platform) (cases : Unicode.CaseData) :
    Contract (installation computeHash platform cases) where
  allowed s o c := s.Spares o c
  valid := Clear
  rely := Grows
  guar := Grows

private theorem clearing_stable : (clearing computeHash platform cases).Stable := ⟨Grows.refl, Grows.trans⟩

private theorem clearing_op (s : Installation) (o : InstallationOp) (c : o.Choice)
    (clear : s.Clear) (spares : s.Spares o c) :
    ((installation computeHash platform cases).exec o c s).2.Clear ∧
      s.Grows ((installation computeHash platform cases).exec o c s).2 :=
  ⟨(clear.step_iff o c).mpr spares, exec_grows o c s⟩

private theorem clearing_readied : (clearing computeHash platform cases).Readied fun _ _ => True :=
  fun s o c clear _ spares => clearing_op s o c clear spares

/-- After its best effort the store is cleaned or there is a warning. -/
private theorem removeOrWarn_safe (accountId : AccountId) (store : Store) (s : Installation) :
    SafeAct (clearing computeHash platform cases) (fun _ t => t.Dealt accountId store) (fun _ _ => True)
      (removeOrWarn accountId store) s := by
  have removal : SafeAct (clearing computeHash platform cases) (fun _ t => t.Dealt accountId store)
    (fun _ _ => True)
      (.mk (.call (InstallationOp.remove accountId store) .ret) : InstallationAction Error Unit) s := by
    refine SafeAct.ready clearing_readied (o := .remove accountId store) (k := id)
      (fun _ _ _ => trivial) fun s₁ c _ _ _ t ht =>
      ⟨fun _ hk => ?_, fun _ _ => trivial⟩
    cases c with
    | none => exact Dealt.mono (.inl (by simp [clean])) ht
    | some f => cases hk
  apply SafeAct.seq clearing_stable (SafeAct.attempt clearing_stable removal)
  intro r t _ ht
  cases r with
  | ok a => exact SafeAct.pure fun u _ hu => (ht.1 a rfl).mono hu
  | error e =>
    exact SafeAct.ready clearing_readied (k := fun _ => .ok ()) (fun _ _ _ => trivial) fun s₁ c _ _ _ u hu =>
      ⟨fun _ _ => Dealt.mono (.inr (List.mem_cons_self ..)) hu, fun _ _ => trivial⟩

/-- A deletion that reports success has dealt with every store. -/
private theorem deleteAccount_safe (userId : UserId) (accountId : AccountId) (s : Installation) :
    SafeAct (clearing computeHash platform cases) (fun _ t => ∀ store, t.Dealt accountId store) (fun _ _ => True)
      (deleteAccount userId accountId) s := by
  have deletion : SafeAct (clearing computeHash platform cases)
    (fun account _ => account.id = accountId) (fun _ _ => True)
      (.mk (.call (InstallationOp.deleteAccount userId accountId) .ret) : InstallationAction Error Account) s := by
    refine SafeAct.ready clearing_readied (o := .deleteAccount userId accountId) (k := id)
      (fun _ _ _ => trivial) fun s₁ c _ _ _ t _ =>
      ⟨fun account hk => ?_, fun _ _ => trivial⟩
    obtain ⟨db, hd, -⟩ := transact_ok hk
    exact (AccountService.deleteAccount_ok hd).2.1
  apply SafeAct.seq clearing_stable deletion
  intro account t _ hid
  obtain rfl : account.id = accountId := hid
  apply SafeAct.seq clearing_stable (removeOrWarn_safe account.id .raw t)
  intro _ u _ raw
  apply SafeAct.follow clearing_stable (removeOrWarn_safe account.id .attachments u)
  intro _ v _ later attachments
  refine Safe.weaken (Safe.frame clearing_stable (removeOrWarn_safe account.id .docs v))
    fun r w _ ⟨docs, last⟩ => ?_
  cases r with
  | error e => trivial
  | ok a =>
    intro store
    cases store with
    | raw => exact raw.mono (later.trans last)
    | attachments => exact attachments.mono last
    | docs => exact docs

variable {ι : Type} [DecidableEq ι] {work : ι → Activity}

omit [DecidableEq ι] in
private theorem deletionSystem_sound : (deletionSystem computeHash platform cases tantivy extractBody parseEml Spares work).Sound
    (fun _ => clearing computeHash platform cases)
    (fun i r s => ∀ userId accountId, work i = .delete userId accountId → r = .ok () → ∀ store, s.Dealt accountId store)
    Clear where
  stable _ := clearing_stable
  valid_iff _ _ := Iff.rfl
  allows _ _ _ _ ok := ok.2
  agree _ _ _ _ _ _ _ hg := hg
  root s i p _ root := by
    subst root
    cases hw : work i with
    | delete userId accountId =>
      apply Safe.weaken (deleteAccount_safe userId accountId s)
      intro r t _ ht
      rintro _ _ he rfl
      cases he
      exact ht
    | drain | parse _ =>
      refine Safe.weaken (Safe.of_ops (fun s o c => clearing_op s o c) _ s) fun r t _ _ => ?_
      intro _ _ he
      cases he
  env _ _ _ outside := outside.elim
  crash _ _ _ crash := crash.elim

/-- In every run whose steps put nothing of an account into a store that has been cleaned of it, a deletion that
has returned without an error and without a warning has left nothing; and a step breaks this just where it does. -/
theorem deletion_complete {s : Installation} {c : Config (installation computeHash platform cases) ι (Except Error Unit)}
    (run : (deletionSystem computeHash platform cases tantivy extractBody parseEml Spares work).Reaches
      (.idle s.atStart) c) :
    (∀ i userId accountId, work i = .delete userId accountId → c.result? i = some (.ok ()) →
      (∀ store, (accountId, store) ∉ c.state.warnings) → c.state.Erased accountId) ∧
      ∀ o ch, ((installation computeHash platform cases).exec o ch c.state).2.Clear ↔ c.state.Spares o ch := by
  have initial : s.atStart.Clear := fun _ _ cleaned => (by cases cleaned)
  have safe := deletionSystem_sound.reaches (.idle initial) run
  refine ⟨fun i userId accountId job returned silent store => ?_, fun o ch => safe.1.step_iff o ch⟩
  have dealt := safe.returned i clearing_stable safe.1 (Config.result?_eq_some.mp returned) userId accountId job rfl store
  exact safe.1 accountId store (dealt.resolve_right (silent store))

end

/-- An account with one message that is not indexed yet. The indexer has read it and a worker its blob when
the account is deleted. -/
def oneLetter : Installation where
  world := { inboxWorld (some 1) 1 with
    db := { (inboxWorld (some 1) 1).db with messages := ⟨[newMail.toRow 10 1], newMail_ids⟩ }
    raw := fun _ _ => some [1] }
  users := .empty
  login _ := none
  docs := []
  writer := []
  locked := false
  fetched _ := none
  running _ := false
  cleaned _ _ := false
  warnings := []

def oneAttachment : ParseEml := fun _ _ => .ok {
  rfc822MessageId := ""
  subject := none
  fromAddress := "you@example.org"
  fromName := none
  toAddresses := []
  ccAddresses := []
  bccAddresses := []
  replyToAddresses := []
  sentDate := none
  inReplyTo := none
  references := []
  snippet := ""
  sizeBytes := 1
  attachments := [⟨[2], none, "text/plain", false, none⟩] }

def letterJob : ParseMessageJob := ⟨1, 7, 1, 1, newMail.contentHash, 0, ⟨false, false, false, false, false, false, []⟩⟩

/-- No step fails. -/
def unfailing : (o : InstallationOp) → o.Choice
  | .backend o => calm ⟨some 1, none⟩ (fun _ _ => []) 1 o
  | .index o => smooth o
  | .user (.transact _) => .ok ⟨1, false, 0⟩
  | .user (.encryptPassword _) => ""
  | .getAccount _ _ | .deleteAccount _ _ | .remove _ _ => none
  | .user (.loginUser _ _) | .stopAccount _ | .warn _ _ => ()

def threeThreads : Fin 3 → Activity
  | 0 => .drain
  | 1 => .parse letterJob
  | 2 => .delete 1 1

abbrev threeSystem (met : (installation firstByte plainPlatform latinCases).Allowed) :=
  deletionSystem firstByte plainPlatform latinCases plainTantivy plainText oneAttachment met threeThreads

def threeStarted : List (Fin 3) → Config (installation firstByte plainPlatform latinCases)
    (Fin 3) (Except Error Unit)
  | [] => .idle oneLetter.atStart
  | i :: rest => (threeStarted rest).set oneLetter.atStart i
    ((threeThreads i).program plainTantivy plainText oneAttachment)

def threeAfter (turns : List (Fin 3)) : Config (installation firstByte plainPlatform latinCases)
    (Fin 3) (Except Error Unit) :=
  turns.foldl (fun c i => c.advance unfailing i) (threeStarted [2, 1, 0])

private theorem threeAfter_reached {met : (installation firstByte plainPlatform latinCases).Allowed}
    {turns : List (Fin 3)}
    (permits : (threeSystem met).Permits (fun _ => unfailing) (threeStarted [2, 1, 0]) turns) :
    (threeSystem met).Reaches (.idle oneLetter.atStart) (threeAfter turns) := by
  have drain : (threeSystem met).Step (threeStarted []) (threeStarted [0]) := System.step_start rfl rfl
  have parse : (threeSystem met).Step (threeStarted [0]) (threeStarted [1, 0]) := System.step_start rfl rfl
  have delete : (threeSystem met).Step (threeStarted [1, 0]) (threeStarted [2, 1, 0]) := System.step_start rfl rfl
  exact (((Relation.ReflTransGen.single drain).tail parse).tail delete).trans permits.reaches

/-- The indexer takes its turns, then the account is deleted. -/
theorem deletion_complete_afterDrain :
    ∃ c : Config (installation firstByte plainPlatform latinCases) (Fin 3) (Except Error Unit),
      (threeSystem Spares).Reaches (.idle oneLetter.atStart) c ∧ c.state.Erased 1 := by
  have run : (threeSystem Spares).Reaches (.idle oneLetter.atStart)
      (threeAfter [0, 0, 0, 0, 0, 0, 0, 2, 2, 2, 2]) := by
    have free : True ∧ True := ⟨trivial, trivial⟩
    have own : ∀ d ∈ (threeAfter [0, 0, 0, 0, 0, 0, 0, 2, 2, 2]).state.writer, d.accountId = 1 :=
      fun d hd => congrArg Document.accountId (List.mem_singleton.mp hd)
    exact threeAfter_reached (.intro free (.intro free (.intro ⟨rfl, trivial⟩ (.intro free (.intro free
      (.intro ⟨trivial, fun _ _ _ => rfl⟩ (.intro free (.intro free (.intro free (.intro free
        (.intro ⟨rfl, fun _ d hd other => absurd (own d hd) other⟩ trivial)))))))))))
  exact ⟨_, run, (deletion_complete run).1 2 1 1 rfl rfl fun store h => by cases h⟩

/-- The indexer has read the message and the worker its blob; the account is deleted; then the indexer commits its
document and the worker stores the attachment. -/
theorem deletion_incomplete :
    ∃ c : Config (installation firstByte plainPlatform latinCases) (Fin 3) (Except Error Unit),
      (threeSystem fun _ _ _ => True).Reaches (.idle oneLetter.atStart) c ∧ (∀ i, ¬ c.Busy i) ∧
        c.result? 2 = some (.ok ()) ∧ c.state.warnings = [] ∧ c.state.Holds 1 .docs ∧
          c.state.Holds 1 .attachments := by
  have run : (threeSystem fun _ _ _ => True).Reaches (.idle oneLetter.atStart)
      (threeAfter [0, 0, 1, 2, 2, 2, 2, 0, 0, 0, 0, 0, 1, 1]) := by
    have free : True ∧ True := ⟨trivial, trivial⟩
    exact threeAfter_reached (.intro free (.intro free (.intro free (.intro free (.intro free (.intro free
      (.intro ⟨rfl, trivial⟩ (.intro ⟨rfl, trivial⟩ (.intro free (.intro free (.intro free (.intro free (.intro free
        (.intro free trivial))))))))))))))
  refine ⟨_, run, ?_, rfl, rfl, ⟨_, List.mem_singleton.mpr rfl, rfl⟩, ⟨firstByte [2], fun h => by cases h⟩⟩
  rintro i ⟨o, next, busy⟩
  match i with
  | 0 | 1 | 2 => cases busy

end MailKeep
