import MailKeep.Imap.PassRules
import MailKeep.Pipeline.Workers

/-! The locations of a folder after a UIDVALIDITY rollover, while workers go on with the jobs from before it. -/
namespace MailKeep
open Program Backend

/-- The newest placing of the message in the folder since its locations were dropped. -/
def newestPlacing (folderId : FolderId) (messageId : MessageId) : List Event → Option ParseMessageJob
  | [] => none
  | .dropped f :: log => if f = folderId then none else newestPlacing folderId messageId log
  | .placed m payload :: log =>
    if m = messageId ∧ payload.folderId = folderId then some payload else newestPlacing folderId messageId log
  | _ :: log => newestPlacing folderId messageId log

section
variable (computeHash : Bytes → ContentHash) (folderId : FolderId) (uidvalidity : U32) (mail : U32 → Option Bytes)

/-- The server has the folder under one UIDVALIDITY and sends the mail that stands under each UID there. -/
def serverHas : (backend computeHash).Allowed
  | _, .select folder, .ok mailbox => folder.id = folderId → ∀ v, mailbox.uidValidity = some v → v = uidvalidity
  | _, .uidFetch folder _ _ _, .ok items => folder.id = folderId →
      ∀ uid body internalDate flags, .ok ⟨some uid, some body, internalDate, flags⟩ ∈ items → mail uid = some body
  | _, _, _ => True

/-- Each location of the folder carries the UIDVALIDITY of the folder's row, and the UID of its message. -/
def Coherent (w : World) : Prop :=
  ∀ l ∈ w.db.locations, l.folderId = folderId →
    recordedUidvalidity w.db.folders folderId = some l.uidvalidity ∧
      ∃ m ∈ w.db.messages, m.id = l.messageId ∧ ∃ body, mail l.uid = some body ∧ computeHash body = m.contentHash

/-- A job for the folder under this UIDVALIDITY is of the mail that the server has there. -/
def Genuine (payload : ParseMessageJob) : Prop :=
  payload.folderId = folderId → payload.uidvalidity = uidvalidity →
    ∃ body, mail payload.uid = some body ∧ computeHash body = payload.contentHash

end

/-- The locations in the folder are what the placings since the drop have made of them. -/
structure Mirrors (folderId : FolderId) (locations : Keyed.Table MessageLocation.id)
    (newest : MessageId → Option ParseMessageJob) : Prop where
  row : ∀ l ∈ locations, l.folderId = folderId →
    ∃ p, newest l.messageId = some p ∧ l.uid = p.uid ∧ l.uidvalidity = p.uidvalidity
  place : ∀ m p, newest m = some p → ∃ l ∈ locations, l.folderId = folderId ∧ l.messageId = m
  unique : ∀ l ∈ locations, ∀ l' ∈ locations, l.folderId = folderId → l'.folderId = folderId →
    l.messageId = l'.messageId → l = l'

theorem Mirrors.dropped {folderId : FolderId} {locations : Keyed.Table MessageLocation.id}
    (h : ∀ l ∈ locations, l.folderId ≠ folderId) : Mirrors folderId locations fun _ => none :=
  ⟨fun l hl hf => absurd hf (h l hl), fun _ _ hp => (by cases hp), fun l hl _ _ hf => absurd hf (h l hl)⟩

theorem Mirrors.elsewhere {folderId : FolderId} {before after : Keyed.Table MessageLocation.id}
    {newest : MessageId → Option ParseMessageJob} (h : Mirrors folderId before newest)
    (same : ∀ l, l.folderId = folderId → (l ∈ after ↔ l ∈ before)) : Mirrors folderId after newest where
  row := fun l hl hf => h.row l ((same l hf).mp hl) hf
  place := fun m p hp => by
    obtain ⟨l, hl, hf, hm⟩ := h.place m p hp
    exact ⟨l, (same l hf).mpr hl, hf, hm⟩
  unique := fun l hl l' hl' hf hf' hm => h.unique l ((same l hf).mp hl) l' ((same l' hf').mp hl') hf hf' hm

/-- The last writer wins. -/
theorem Mirrors.placed {folderId : FolderId} {before after : Keyed.Table MessageLocation.id}
    {newest : MessageId → Option ParseMessageJob} {messageId : MessageId} {p : ParseMessageJob}
    {saved : MessageLocation}
    (h : Mirrors folderId before newest) (hp : PlacedIn messageId p.folderId p.uid p.uidvalidity before after saved) :
    Mirrors folderId after fun m => if messageId = m ∧ p.folderId = folderId then some p else newest m := by
  -- another row of the folder is of another message
  have other : ∀ l ∈ before, l.id ≠ saved.id → l.folderId = folderId →
      ¬ (messageId = l.messageId ∧ p.folderId = folderId) := by
    rintro l hl hne hf ⟨rfl, hpf⟩
    obtain ⟨l₀, hl₀, hid, hm, hf₀⟩ := hp.replaced l hl rfl (hf.trans hpf.symm)
    exact hne (h.unique l hl l₀ hl₀ hf (hf₀.trans hpf) hm.symm ▸ hid)
  refine ⟨fun l hl hf => ?_, fun m q hq => ?_, fun l hl l' hl' hf hf' hm => ?_⟩
  · rcases hp.others l hl with rfl | ⟨old, hne⟩
    · rw [if_pos ⟨hp.at_place.1.symm, hp.at_place.2.symm.trans hf⟩]
      exact ⟨p, rfl, hp.as_given⟩
    · rw [if_neg (other l old hne hf)]
      exact h.row l old hf
  · split at hq
    · rename_i here
      exact ⟨saved, hp.mem, hp.at_place.2.trans here.2, hp.at_place.1.trans here.1⟩
    · obtain ⟨l, hl, hf, hm⟩ := h.place m q hq
      rcases hp.kept l hl with kept | ⟨-, hmid, hfid⟩
      · exact ⟨l, kept, hf, hm⟩
      · exact ⟨saved, hp.mem, hp.at_place.2.trans (hfid.symm.trans hf), hp.at_place.1.trans (hmid.symm.trans hm)⟩
  · rcases hp.others l hl with rfl | ⟨old, hne⟩
    · rcases hp.others l' hl' with rfl | ⟨old', hne'⟩
      · rfl
      · exact absurd ⟨hp.at_place.1.symm.trans hm, hp.at_place.2.symm.trans hf⟩ (other l' old' hne' hf')
    · rcases hp.others l' hl' with rfl | ⟨old', -⟩
      · exact absurd ⟨hp.at_place.1.symm.trans hm.symm, hp.at_place.2.symm.trans hf'⟩ (other l old hne hf)
      · exact h.unique l old l' old' hf hf' hm

/-- Between the operations: the jobs and the placings are genuine, and once the locations were dropped the row
has the server's UIDVALIDITY and the locations mirror the placings. -/
structure Placements (computeHash : Bytes → ContentHash) (folderId : FolderId) (uidvalidity : U32)
    (mail : U32 → Option Bytes) (w : World) : Prop where
  jobs : ∀ j ∈ w.db.jobs, Genuine computeHash folderId uidvalidity mail j.payload
  placed : ∀ messageId p, newestPlacing folderId messageId w.log = some p → p.folderId = folderId ∧
    Genuine computeHash folderId uidvalidity mail p ∧ ∃ m ∈ w.db.messages, m.id = messageId ∧
      m.contentHash = p.contentHash
  recorded : .dropped folderId ∈ w.log → recordedUidvalidity w.db.folders folderId = some uidvalidity
  mirrors : .dropped folderId ∈ w.log → Mirrors folderId w.db.locations fun m => newestPlacing folderId m w.log

section
variable {computeHash : Bytes → ContentHash} {folderId : FolderId} {uidvalidity : U32}
    {mail : U32 → Option Bytes} {s t : World}

/-- The rows are coherent just where the newest placing of each message is under the server's UIDVALIDITY. -/
private theorem Placements.coherent_iff (h : Placements computeHash folderId uidvalidity mail s)
    (dropped : .dropped folderId ∈ s.log) :
    Coherent computeHash folderId mail s ↔
      ∀ messageId p, newestPlacing folderId messageId s.log = some p → p.uidvalidity = uidvalidity := by
  have mirrors := h.mirrors dropped
  constructor
  · intro coherent messageId p hp
    obtain ⟨l, hl, hf, rfl⟩ := mirrors.place messageId p hp
    obtain ⟨q, hq, -, hv⟩ := mirrors.row l hl hf
    obtain rfl := Option.some.inj (hp.symm.trans hq)
    exact hv.symm.trans (Option.some.inj ((coherent l hl hf).1.symm.trans (h.recorded dropped)))
  · intro current l hl hf
    obtain ⟨p, hp, hu, hv⟩ := mirrors.row l hl hf
    have hpv := current _ p hp
    obtain ⟨hpf, genuine, m, hm, hid, hc⟩ := h.placed _ p hp
    obtain ⟨body, hb, hash⟩ := genuine hpf hpv
    exact ⟨(h.recorded dropped).trans (congrArg some (hv.trans hpv).symm), m, hm, hid, body, hu ▸ hb, hash.trans hc.symm⟩

private theorem recordedUidvalidity_eq_some {folders : Keyed.Table Folder.id} {v : U32} :
    recordedUidvalidity folders folderId = some v ↔ ∃ f ∈ folders, f.id = folderId ∧ f.uidvalidity = some v := by
  simp only [recordedUidvalidity, Option.bind_eq_some_iff, Keyed.Table.find?_eq_some, and_assoc]

/-- Progress that is recorded for the folder under `v` leaves the row with `v`; other progress leaves it alone. -/
private theorem recordedUidvalidity_setSyncState {db : Database} {f : FolderId} {v lastUid : U32} {now : DateTimeUtc}
    (row : ∃ g ∈ db.folders, g.id = f) (same : f = folderId → v = uidvalidity)
    (h : f = folderId ∨ recordedUidvalidity db.folders folderId = some uidvalidity) :
    recordedUidvalidity (db.setSyncState f v lastUid now).folders folderId = some uidvalidity := by
  rw [recordedUidvalidity_eq_some]
  by_cases hf : f = folderId
  · obtain ⟨g, hg, hid⟩ := row
    refine ⟨g.synced v lastUid now, Database.mem_setSyncState.mpr ⟨g, hg, by rw [if_pos hid]⟩, hid.trans hf, ?_⟩
    exact congrArg some (same hf)
  · obtain ⟨g, hg, hid, hv⟩ := recordedUidvalidity_eq_some.mp (h.resolve_left hf)
    refine ⟨g, Database.mem_setSyncState.mpr ⟨g, hg, ?_⟩, hid, hv⟩
    rw [if_neg fun he => hf (he.symm.trans hid)]

private theorem newestPlacing_cons {e : Event} {log : List Event} {m : MessageId} (dropped : ∀ f, e ≠ .dropped f)
    (placed : ∀ m p, e ≠ .placed m p) : newestPlacing folderId m (e :: log) = newestPlacing folderId m log := by
  cases e with
  | dropped f => exact absurd rfl (dropped f)
  | placed m p => exact absurd rfl (placed m p)
  | _ => rfl

variable (computeHash folderId uidvalidity mail) in
def Lawful (s : World) : BackendOp → Prop
  | .transact (.enqueueRaw _ payload _) => Genuine computeHash folderId uidvalidity mail payload
  | .transact (.recordSyncProgress f v _ _) => f = folderId → v = uidvalidity
  | .transact (.deleteLocationsForFolder f) => f = folderId →
    recordedUidvalidity s.db.folders folderId = some uidvalidity
  | .transact (.recordParsedMessage payload parsed) =>
    Genuine computeHash folderId uidvalidity mail payload ∧ parsed.contentHash = payload.contentHash
  | .note e => (∀ f, e ≠ .dropped f) ∧ ∀ m p, e ≠ .placed m p
  | _ => True

def Stays (folderId : FolderId) (uidvalidity : U32) (s t : World) : Prop :=
  recordedUidvalidity s.db.folders folderId = some uidvalidity →
    recordedUidvalidity t.db.folders folderId = some uidvalidity

namespace Placements

theorem advance (h : Placements computeHash folderId uidvalidity mail s)
    (jobs : ∀ j ∈ t.db.jobs, Genuine computeHash folderId uidvalidity mail j.payload)
    (messages : t.db.messages = s.db.messages) (locations : t.db.locations = s.db.locations)
    (stays : Stays folderId uidvalidity s t)
    (newest : ∀ m, newestPlacing folderId m t.log = newestPlacing folderId m s.log)
    (dropped : .dropped folderId ∈ t.log → .dropped folderId ∈ s.log) :
    Placements computeHash folderId uidvalidity mail t ∧ Stays folderId uidvalidity s t := by
  refine ⟨⟨jobs, fun m p hp => ?_, fun hd => stays (h.recorded (dropped hd)), fun hd => ?_⟩, stays⟩
  · rw [messages]
    exact h.placed m p (newest m ▸ hp)
  · rw [locations, funext newest]
    exact h.mirrors (dropped hd)

/-- A step that leaves the database alone and enters neither a drop nor a placing. -/
theorem aside (h : Placements computeHash folderId uidvalidity mail s) (db : t.db = s.db)
    (log : t.log = s.log ∨ ∃ e, t.log = e :: s.log ∧ (∀ f, e ≠ .dropped f) ∧ ∀ m p, e ≠ .placed m p) :
    Placements computeHash folderId uidvalidity mail t ∧ Stays folderId uidvalidity s t := by
  refine h.advance (db ▸ h.jobs) (by rw [db]) (by rw [db]) (fun hr => db ▸ hr) ?_ ?_
  · intro m
    rcases log with same | ⟨e, same, hd, hp⟩
    · rw [same]
    · rw [same, newestPlacing_cons hd hp]
  · intro hd
    rcases log with same | ⟨e, same, notDropped, -⟩
    · exact same ▸ hd
    · rw [same] at hd
      exact (List.mem_cons.mp hd).resolve_left fun he => notDropped _ he.symm

/-- A step on the jobs alone. -/
theorem rewrites (h : Placements computeHash folderId uidvalidity mail s) {f : Job → Job} {j : Job}
    (w : Job.Rewritten f j s.db t.db) (log : t.log = s.log) (same : (f j).payload = j.payload) :
    Placements computeHash folderId uidvalidity mail t ∧ Stays folderId uidvalidity s t := by
  have rest : t.db.messages = s.db.messages ∧ t.db.locations = s.db.locations ∧ t.db.folders = s.db.folders := by
    rw [w.rest]
    exact ⟨rfl, rfl, rfl⟩
  refine h.advance (fun j' hj' => ?_) rest.1 rest.2.1 (fun hr => rest.2.2 ▸ hr)
    (fun _ => by rw [log]) fun hd => log ▸ hd
  rcases (w.jobs j').mp hj' with rfl | ⟨old, -⟩
  · exact same ▸ h.jobs j w.mem
  · exact h.jobs j' old

/-- The drop: there is no location in the folder, and no placing since. -/
private theorem drops (h : Placements computeHash folderId uidvalidity mail s) {f : FolderId}
    (ready : f = folderId → recordedUidvalidity s.db.folders folderId = some uidvalidity) :
    Placements computeHash folderId uidvalidity mail
      { s with db := s.db.dropLocations f, log := .dropped f :: s.log } := by
  by_cases hf : f = folderId
  · subst hf
    have fresh : ∀ m, newestPlacing f m (.dropped f :: s.log) = none := fun m => if_pos rfl
    refine ⟨h.jobs, fun m p hp => ?_, fun _ => ready rfl, fun _ => ?_⟩
    · rw [fresh m] at hp
      cases hp
    · rw [funext fresh]
      exact .dropped fun l hl => (Database.mem_dropLocations.mp hl).2
  · have other : ∀ m, newestPlacing folderId m (.dropped f :: s.log) = newestPlacing folderId m s.log :=
      fun m => if_neg hf
    have before : .dropped folderId ∈ Event.dropped f :: s.log → .dropped folderId ∈ s.log := fun hd =>
      (List.mem_cons.mp hd).resolve_left fun he => hf (Event.dropped.inj he).symm
    refine ⟨h.jobs, fun m p hp => h.placed m p (other m ▸ hp), fun hd => h.recorded (before hd), fun hd => ?_⟩
    rw [funext other]
    apply (h.mirrors (before hd)).elsewhere
    intro l hl
    rw [Database.mem_dropLocations]
    exact and_iff_left fun he => hf (he.symm.trans hl)

theorem records (h : Placements computeHash folderId uidvalidity mail s) {payload : ParseMessageJob}
    {parsed : ParsedMessage}
    {d : Draw} {r : RecordedMessage} {db : Database} (genuine : Genuine computeHash folderId uidvalidity mail payload)
    (content : parsed.contentHash = payload.contentHash)
    (ok : recordParsedMessage d.tokens payload.accountId payload.folderId payload.uid payload.uidvalidity
      payload.internalDate payload.flags parsed s.db = .ok (r, db)) :
    Placements computeHash folderId uidvalidity mail { s with db := db, log := .placed r.messageId payload :: s.log } ∧
      db.folders = s.db.folders := by
  obtain ⟨mid, saved, archived, rest, placed⟩ := recordParsedMessage_ok ok
  have same : db.jobs = s.db.jobs ∧ db.folders = s.db.folders ∧ db.messages = mid.messages := by
    rw [rest]
    exact ⟨archived.jobs, archived.folders, rfl⟩
  have before : .dropped folderId ∈ Event.placed r.messageId payload :: s.log →
    .dropped folderId ∈ s.log := fun hd =>
    (List.mem_cons.mp hd).resolve_left fun he => by cases he
  refine ⟨⟨?_, fun m p hp => ?_, fun hd => ?_, fun hd => (h.mirrors (before hd)).placed placed⟩, same.2.1⟩
  · exact same.1 ▸ h.jobs
  · change (if r.messageId = m ∧ payload.folderId = folderId then some payload else newestPlacing folderId m s.log) = some p at hp
    change _ ∧ _ ∧ ∃ row ∈ db.messages, _
    rw [same.2.2]
    split at hp
    · rename_i here
      cases hp
      obtain ⟨row, hrow, hid, -, hc⟩ := archived.row
      exact ⟨here.2, genuine, row, hrow, hid.trans here.1, hc.trans content⟩
    · obtain ⟨hf, hg, row, hrow, hid, hc⟩ := h.placed m p hp
      exact ⟨hf, hg, row, archived.kept row hrow, hid, hc⟩
  · change recordedUidvalidity db.folders folderId = _
    rw [same.2.1]
    exact h.recorded (before hd)

theorem transact (h : Placements computeHash folderId uidvalidity mail s) {x : Txn} {c : Except DbErr Draw}
    (ready : Lawful computeHash folderId uidvalidity mail s (.transact x)) :
    Placements computeHash folderId uidvalidity mail (s.transact x c).2 ∧
      Stays folderId uidvalidity s (s.transact x c).2 := by
  rcases s.transact_cases x c with ⟨e, he⟩ | ⟨d, r, db, rfl, hbody, hok⟩
  · rw [he]
    exact ⟨h, id⟩
  rw [hok]
  cases x with
  | enqueueRaw jobType payload priority =>
    obtain ⟨hp, -, rest, jobs⟩ := JobRepository.enqueueRaw_ok hbody
    refine h.advance (t := { s with db := db, log := s.log }) (fun j hj => ?_) ?_ ?_ ?_ (fun _ => rfl) id
    · rcases (jobs j).mp hj with old | rfl
      · exact h.jobs j old
      · exact hp ▸ ready
    · rw [rest]
    · rw [rest]
    · intro hr
      rw [rest]
      exact hr
  | recordSyncProgress f v lastUid now =>
    obtain ⟨row, rfl⟩ := FolderRepository.updateSyncState_ok hbody
    refine h.advance (t := { s with db := s.db.setSyncState f v lastUid now, log := .persisted f v lastUid :: s.log })
      h.jobs rfl rfl (fun hr => recordedUidvalidity_setSyncState row ready (.inr hr)) (fun _ => rfl) fun hd => ?_
    exact (List.mem_cons.mp hd).resolve_left fun he => by cases he
  | deleteLocationsForFolder f =>
    rw [MessageLocationRepository.deleteByFolderId_ok hbody]
    exact ⟨h.drops ready, id⟩
  | recordParsedMessage payload parsed =>
    obtain ⟨next, folders⟩ := h.records ready.1 ready.2 hbody
    exact ⟨next, fun hr => folders ▸ hr⟩
  | claimNext =>
    rcases JobRepository.claimNext_ok hbody with ⟨-, rfl⟩ | ⟨j, -, -, -, w⟩
    · exact h.aside rfl (.inl rfl)
    · exact h.rewrites (t := { s with db := db, log := s.log }) w rfl rfl
  | complete job =>
    obtain ⟨j, -, -, w⟩ := JobRepository.complete_ok hbody
    exact h.rewrites (t := { s with db := db, log := s.log }) w rfl rfl
  | fail job error =>
    obtain ⟨j, -, -, w | ⟨-, w⟩⟩ := JobRepository.fail_ok hbody
    · exact h.rewrites (t := { s with db := db, log := s.log }) w rfl rfl
    · exact h.rewrites (t := { s with db := db, log := s.log }) w rfl rfl
  | failTerminal job error =>
    obtain ⟨j, -, -, w⟩ := JobRepository.failTerminal_ok hbody
    exact h.rewrites (t := { s with db := db, log := s.log }) w rfl rfl

theorem exec (h : Placements computeHash folderId uidvalidity mail s) {o : BackendOp} {c : o.Choice}
    (ready : Lawful computeHash folderId uidvalidity mail s o) :
    Placements computeHash folderId uidvalidity mail (backendExec computeHash o c s).2 ∧
      Stays folderId uidvalidity s (backendExec computeHash o c s).2 := by
  cases o with
  | transact x => exact h.transact ready
  | note e => exact h.aside rfl (.inr ⟨e, rfl, ready⟩)
  | connect =>
    cases c with
    | ok _ => exact h.aside rfl (.inr ⟨_, rfl, fun _ he => (by cases he), fun _ _ he => by cases he⟩)
    | error _ => exact ⟨h, id⟩
  | select folder =>
    cases c with
    | ok _ => exact h.aside rfl (.inr ⟨_, rfl, fun _ he => (by cases he), fun _ _ he => by cases he⟩)
    | error _ => exact ⟨h, id⟩
  | uidFetch _ _ _ _ => exact h.aside rfl (.inr ⟨_, rfl, fun _ he => (by cases he), fun _ _ he => by cases he⟩)
  | getRaw _ _ => cases c <;> exact ⟨h, id⟩
  | putRaw _ _ | putAttachment _ _ | setStatus _ _ => exact h.aside rfl (.inl rfl)
  | logout | idle | isCancelled | sleep _ | now => exact ⟨h, id⟩

end Placements

abbrev placementContract (computeHash : Bytes → ContentHash) (folderId : FolderId) (uidvalidity : U32)
    (mail : U32 → Option Bytes) : Contract (backend computeHash) :=
  .mutual (serverHas computeHash folderId uidvalidity mail) (Placements computeHash folderId uidvalidity mail)
    (Stays folderId uidvalidity)

theorem placementContract_stable : (placementContract computeHash folderId uidvalidity mail).Stable :=
  ⟨fun _ h => h, fun h h' hr => h' (h hr)⟩

theorem placement_readied : (placementContract computeHash folderId uidvalidity mail).Readied
    (Lawful computeHash folderId uidvalidity mail) :=
  fun _ _ _ valid ready _ => valid.exec ready

private theorem recordSyncProgress_placement {f : FolderId} {v lastUid : U32} (same : f = folderId → v = uidvalidity) :
    SafeAct (placementContract computeHash folderId uidvalidity mail)
      (fun _ t => f = folderId → recordedUidvalidity t.db.folders folderId = some uidvalidity) (fun _ _ => True)
      (recordSyncProgress f v lastUid) s := by
  refine SafeAct.follow placementContract_stable (SafeAct.plain placement_readied (o := .now) (k := .ok) fun _ => trivial)
    fun now t _ _ _ => ?_
  refine transact_ready placement_readied (fun _ _ _ stays h hf => stays (h hf)) (fun _ _ _ => same)
    (fun _ _ _ _ _ _ _ _ => trivial) fun s₁ d r db _ _ hbody hf => ?_
  obtain ⟨row, rfl⟩ := FolderRepository.updateSyncState_ok hbody
  exact recordedUidvalidity_setSyncState row same (.inl hf)

/-- An entry that is neither a drop nor a placing. -/
private theorem note_placement {e : Event} (dropped : ∀ f, e ≠ .dropped f) (placed : ∀ m p, e ≠ .placed m p) :
    Harmless (placementContract computeHash folderId uidvalidity mail) (note e) s :=
  SafeAct.plain placement_readied (o := .note e) (k := .ok) fun _ => ⟨dropped, placed⟩

private theorem ingestRaw_placement {request : IngestRequest}
    (genuine : Genuine computeHash folderId uidvalidity mail (request.job (computeHash request.rawBytes))) :
    Harmless (placementContract computeHash folderId uidvalidity mail) (ingestRaw request) s := by
  have put : SafeAct (placementContract computeHash folderId uidvalidity mail)
      (fun hash _ => hash = computeHash request.rawBytes) (fun _ _ => True)
        (putRaw request.accountId request.rawBytes) s := by
    refine SafeAct.ready placement_readied (o := .putRaw request.accountId request.rawBytes)
      (k := id) (fun _ _ _ => trivial)
      fun s₁ c _ _ _ t _ => ⟨fun hash hh => ?_, fun _ _ => trivial⟩
    rcases c with _ | ⟨text, _ | _⟩ <;> cases hh
    rfl
  apply SafeAct.seq placementContract_stable put
  intro hash t _ hh
  subst hh
  refine Harmless.seq placementContract_stable (transact_plain placement_readied fun _ _ _ => genuine)
    fun job u _ => ?_
  exact Harmless.seq placementContract_stable (note_placement (fun _ he => by cases he) fun _ _ he => by cases he)
    fun _ _ _ => Harmless.pure

/-- The row has the server's UIDVALIDITY before the locations go. -/
private theorem handleUidvalidityChange_placement {f : FolderId} {v : U32} (same : f = folderId → v = uidvalidity) :
    Harmless (placementContract computeHash folderId uidvalidity mail) (handleUidvalidityChange f v) s := by
  refine Harmless.seq placementContract_stable (note_placement (fun _ he => by cases he) fun _ _ he => by cases he)
    fun _ t _ => ?_
  apply SafeAct.seq placementContract_stable (recordSyncProgress_placement same)
  intro _ u _ recorded
  exact Harmless.seq placementContract_stable (transact_plain placement_readied fun _ _ stays hf => stays (recorded hf))
    fun _ _ _ => Harmless.pure

private theorem checkUidvalidity_placement {folder : FolderConfig} {v : U32}
    (same : folder.id = folderId → v = uidvalidity) :
    Harmless (placementContract computeHash folderId uidvalidity mail) (checkUidvalidity folder v) s := by
  unfold checkUidvalidity
  split
  · exact Harmless.seq placementContract_stable (handleUidvalidityChange_placement same) fun _ _ _ => Harmless.pure
  · exact Harmless.seq placementContract_stable (note_placement (fun _ he => by cases he) fun _ _ he => by cases he)
      fun _ _ _ => Harmless.pure

/-- A pass over any folder; of this one the server tells its UIDVALIDITY and its mail. -/
private theorem passing_placement {accountId : AccountId} {folder : FolderConfig} :
    Passing (placementContract computeHash folderId uidvalidity mail) accountId folder (fun _ => True)
      (fun mailbox => folder.id = folderId → ∀ v, mailbox.uidValidity = some v → v = uidvalidity)
      fun f => folder.id = folderId → ∀ uid body, f.uid = some uid → f.body = some body → mail uid = some body where
  stable := placementContract_stable
  kept := fun _ _ _ _ _ => trivial
  select := fun s _ _ => by
    refine SafeAct.ready placement_readied (o := .select folder) (k := .ok) (fun _ _ _ => trivial)
      fun s₁ c _ _ hc t _ =>
      ⟨fun r h => ⟨trivial, fun mailbox hm => ?_⟩, fun _ _ => trivial⟩
    cases h
    cases c with
    | ok _ =>
      cases hm
      exact hc
    | error _ => cases hm
  check := fun mailbox v s opened hu _ _ => checkUidvalidity_placement fun hf => opened hf v hu
  now := fun _ _ _ => SafeAct.plain placement_readied (o := .now) (k := .ok) fun _ => trivial
  status := fun change _ _ _ => SafeAct.plain placement_readied (o := .setStatus accountId change)
    (k := .ok) fun _ => trivial
  fetch := fun mailbox fromUid toUid s _ _ => by
    refine SafeAct.ready placement_readied (o := .uidFetch folder mailbox fromUid toUid)
      (k := .ok) (fun _ _ _ => trivial)
      fun s₁ c _ _ hc t _ => ⟨fun r h => ⟨trivial, fun items hi f hf here uid body hu hb => ?_⟩, fun _ _ => trivial⟩
    cases h
    cases hi
    obtain ⟨fuid, fbody, internalDate, flags⟩ := f
    cases hu
    cases hb
    exact hc here uid body internalDate flags hf
  ingest := fun mailbox v uid body date internalDate flags s opened hu answer _ _ =>
    ingestRaw_placement fun hf _ => ⟨body, answer hf uid body rfl rfl, rfl⟩
  progress := fun mailbox v lastUid now s opened hu _ _ =>
    transact_plain placement_readied fun _ _ _ hf => opened hf v hu

private theorem passOnce_placement {accountId : AccountId} {folder : FolderConfig}
    (valid : Placements computeHash folderId uidvalidity mail s) :
    Harmless (placementContract computeHash folderId uidvalidity mail) (passOnce accountId folder) s :=
  Harmless.seq placementContract_stable (passing_placement.pass valid trivial) fun _ _ _ => Harmless.pure

private theorem storeAttachments_placement {accountId : AccountId} (atts : List ExtractedAttachment) :
    Harmless (placementContract computeHash folderId uidvalidity mail)
      (ParseMessageHandler.storeAttachments accountId atts) s := by
  induction atts generalizing s with
  | nil => exact Harmless.pure
  | cons att atts ih =>
    refine Harmless.seq placementContract_stable (SafeAct.plain placement_readied
      (o := .putAttachment accountId att.bytes) (k := id) fun _ => trivial) fun _ t _ => ?_
    exact Harmless.seq placementContract_stable ih fun _ _ _ => Harmless.pure

private theorem handle_placement {parseEml : ParseEml} {payload : ParseMessageJob}
    (genuine : Genuine computeHash folderId uidvalidity mail payload) :
    Harmless (placementContract computeHash folderId uidvalidity mail)
      (ParseMessageHandler.handle parseEml payload) s := by
  refine Harmless.seq placementContract_stable (SafeAct.plain placement_readied
    (o := .getRaw payload.accountId payload.contentHash) (k := id) fun _ => trivial) fun bytes t _ => ?_
  apply Harmless.seq placementContract_stable Harmless.liftResult
  intro parsed u _
  apply Harmless.seq placementContract_stable (storeAttachments_placement _)
  intro attachments v _
  exact Harmless.seq placementContract_stable (transact_plain placement_readied fun _ _ _ => ⟨genuine, rfl⟩)
    fun _ _ _ => Harmless.pure

private theorem dispatch_placement {parseEml : ParseEml} {job : Job}
    (genuine : Genuine computeHash folderId uidvalidity mail job.payload) :
    Harmless (placementContract computeHash folderId uidvalidity mail) (dispatch parseEml job) s := by
  unfold dispatch
  split
  · exact handle_placement genuine
  · exact Harmless.throw

private theorem report_placement {job : Job} {r : Report} :
    Harmless (placementContract computeHash folderId uidvalidity mail) (r.send job) s := by
  cases r with
  | complete | fail | failTerminal => exact transact_plain placement_readied fun _ _ _ => trivial

private theorem claimNext_placement :
    SafeAct (placementContract computeHash folderId uidvalidity mail)
      (fun found _ => ∀ job, found = some job → Genuine computeHash folderId uidvalidity mail job.payload) (fun _ _ => True)
      (transact .claimNext) s := by
  refine transact_ready placement_readied (fun _ _ _ _ h => h) (fun _ _ _ => trivial)
    (fun _ _ _ _ _ _ _ _ => trivial)
    fun s₁ d found db hv _ hbody job hj => ?_
  rcases JobRepository.claimNext_ok hbody with ⟨rfl, -⟩ | ⟨j, -, -, rfl, w⟩
  · cases hj
  · cases hj
    exact hv.jobs j w.mem

private theorem workOnce_placement {parseEml : ParseEml} :
    Harmless (placementContract computeHash folderId uidvalidity mail) (workOnce parseEml) s := by
  apply SafeAct.seq placementContract_stable claimNext_placement
  intro found t _ genuine
  cases found with
  | none => exact Harmless.pure
  | some job =>
    refine SafeAct.seq placementContract_stable (SafeAct.attempt placementContract_stable (dispatch_placement (genuine job rfl)))
      fun outcome u _ _ => ?_
    exact Harmless.seq placementContract_stable report_placement fun _ _ _ => Harmless.pure

private theorem pipeline_placement {ι : Type} {parseEml : ParseEml} :
    (pipelineSystem parseEml (serverHas computeHash folderId uidvalidity mail) :
      System (backend computeHash) ι (Except Error Unit)).Sound
      (fun _ => placementContract computeHash folderId uidvalidity mail) (fun _ _ _ => True)
      (Placements computeHash folderId uidvalidity mail) where
  stable := fun _ => placementContract_stable
  valid_iff := fun _ _ => Iff.rfl
  allows := fun _ _ _ _ ok => ok
  agree := fun _ _ _ _ _ _ _ stays => stays
  root := fun s i p valid hp => by
    rcases hp with ⟨accountId, folder, -, rfl⟩ | rfl
    · exact Safe.weaken (passOnce_placement valid) fun _ _ _ _ => trivial
    · exact Safe.weaken workOnce_placement fun _ _ _ _ => trivial
  env := fun _ _ _ h => h.elim
  crash := fun _ _ _ h => h.elim

/-- After the locations of a folder were dropped for a rollover, they are coherent just where the newest placing
of each message since then is of a job under the new UIDVALIDITY. -/
theorem rollover_coherent_iff {ι : Type} [DecidableEq ι] {parseEml : ParseEml} {w : World}
    (genuine : ∀ j ∈ w.db.jobs, Genuine computeHash folderId uidvalidity mail j.payload)
    {c : Config (backend computeHash) ι (Except Error Unit)}
    (run : (pipelineSystem parseEml (serverHas computeHash folderId uidvalidity mail)).Reaches (.idle w.atStart) c)
    (dropped : .dropped folderId ∈ c.state.log) :
    Coherent computeHash folderId mail c.state ↔
      ∀ messageId p, newestPlacing folderId messageId c.state.log = some p → p.uidvalidity = uidvalidity := by
  have start : Placements computeHash folderId uidvalidity mail w.atStart :=
    ⟨genuine, fun _ _ hp => (by cases hp), fun hd => (by cases hd), fun hd => by cases hd⟩
  exact (pipeline_placement.reaches (AllSafe.idle start) run).1.coherent_iff dropped

end

def letterAtOne (uid : U32) : Option Bytes := if uid = 1 then some [7] else none

def noMail (_ : U32) : Option Bytes := none

def staleWorld : World where
  db := { (inboxWorld (some 4) 9).db with
    jobs := ⟨[{
      id := 0
      jobType := "parse_message"
      payload := ⟨1, 7, 3, 4, firstByte [7], 0, mapFlags []⟩
      status := .pending
      priority := PRIORITY_INGEST
      attempt := 0
      maxAttempts := 3
      version := 0
      scheduledAt := 0
      startedAt := none
      completedAt := none
      errorMessage := none }], by simp⟩ }
  raw := fun _ _ => some [7]
  attachments _ _ := none
  status _ := initialStatus
  log := []

/-- A pass and a turn of a worker, which move in the order of `turns`. -/
def afterRollover (w : World) (uidNext : U32) (answers : List (Except ImapError Fetch)) (turns : List (Fin 2)) :
    Config (backend firstByte) (Fin 2) (Except Error Unit) :=
  turns.foldl (fun c i => c.advance (calm ⟨some 5, some uidNext⟩ (fun _ _ => answers) 1) i)
    (((Config.idle w.atStart).set w.atStart 0 (passOnce 1 (folderConfig (inbox (some 4) 9))).run).set w.atStart 1
      (workOnce fun _ _ => .ok plainMail).run)

private theorem afterRollover_reached {w : World} {uidNext : U32} {answers : List (Except ImapError Fetch)}
    {mail : U32 → Option Bytes} (known : w.atStart.db.Knows 1 7)
    (sent : ∀ uid body internalDate flags, .ok ⟨some uid, some body, internalDate, flags⟩ ∈ answers → mail uid = some body)
    (turns : List (Fin 2)) :
    (pipelineSystem (fun _ _ => .ok plainMail) (serverHas firstByte 7 5 mail)).Reaches (.idle w.atStart)
      (afterRollover w uidNext answers turns) := by
  refine .trans (.tail (.single (System.step_start rfl (.inl ⟨1, folderConfig (inbox (some 4) 9), known, rfl⟩)))
    (System.step_start rfl (.inr rfl))) (System.reaches_schedule (fun _ s o => ?_) _ _)
  cases o with
  | select folder => exact fun _ v hv => (Option.some.inj hv).symm
  | uidFetch folder mailbox fromUid toUid => exact fun _ => sent
  | _ => trivial

private theorem inbox_known : (inboxWorld (some 4) 9).db.Knows 1 7 :=
  ⟨⟨by decide, _, List.mem_singleton.mpr rfl, rfl⟩, by decide, _, List.mem_singleton.mpr rfl, rfl⟩

/-- The mail has UID 1 now and is ingested again. -/
theorem rollover_coherent_reingested : Coherent firstByte 7 letterAtOne
    (afterRollover (inboxWorld (some 4) 9) 2 [.ok ⟨some 1, some [7], some 0, []⟩] (List.replicate 30 0 ++ List.replicate 10 1)).state := by
  have sent : ∀ uid body internalDate flags,
      .ok ⟨some uid, some body, internalDate, flags⟩ ∈ [(.ok ⟨some 1, some [7], some 0, []⟩ : Except ImapError Fetch)] →
        letterAtOne uid = some body := by
    intro uid body internalDate flags h
    cases List.mem_singleton.mp h
    rfl
  have run := @afterRollover_reached (inboxWorld (some 4) 9) 2 _ letterAtOne inbox_known sent
    (List.replicate 30 0 ++ List.replicate 10 1)
  apply (rollover_coherent_iff (fun _ hj => by cases hj) run (by decide)).mpr
  intro m p hp
  have placed : newestPlacing 7 m [.placed 1 ⟨1, 7, 1, 5, firstByte [7], 0, mapFlags []⟩] = some p := hp
  simp only [newestPlacing, and_true, Option.ite_none_right_eq_some, Option.some.injEq] at placed
  rw [← placed.2]

/-- A worker has claimed the job when the pass handles the rollover of the folder, which is empty by now; then it
records the message under the old UIDVALIDITY, and that is the end. -/
theorem rollover_incoherent :
    ¬ ∀ (w : World) (c : Config (backend firstByte) (Fin 2) (Except Error Unit)),
      (∀ j ∈ w.db.jobs, Genuine firstByte 7 5 noMail j.payload) →
      (pipelineSystem (fun _ _ => .ok plainMail) (serverHas firstByte 7 5 noMail)).Reaches (.idle w.atStart) c →
      .dropped 7 ∈ c.state.log → (∀ j ∈ c.state.db.jobs, j.status ≠ .pending ∧ j.status ≠ .running) →
        (∀ i, ¬ c.Busy i) →
      Coherent firstByte 7 noMail c.state := by
  intro h
  have run := @afterRollover_reached staleWorld 1 [] noMail
    ⟨inbox_known.account, inbox_known.folder⟩ (fun _ _ _ _ hf => by cases hf)
      ([1, 1] ++ List.replicate 12 0 ++ List.replicate 10 1)
  have completed : (afterRollover staleWorld 1 []
      ([1, 1] ++ List.replicate 12 0 ++ List.replicate 10 1)).state.db.jobs.rows.map Job.status =
        [.completed] := rfl
  have coherent := h staleWorld _ (fun j hj _ stale => ?_) run (by decide) (fun j hj => ?_) fun i busy => ?_
  · cases (coherent _ (List.mem_singleton.mpr rfl) rfl).1
  · cases List.mem_singleton.mp hj
    cases stale
  · have status : j.status ∈ [JobStatus.completed] := completed ▸ List.mem_map_of_mem hj
    rw [List.mem_singleton.mp status]
    exact ⟨JobStatus.noConfusion, JobStatus.noConfusion⟩
  · obtain ⟨o, next, waits⟩ := busy
    match i with
    | 0 | 1 => cases waits

end MailKeep
