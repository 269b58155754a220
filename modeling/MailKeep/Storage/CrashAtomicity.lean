import MailKeep.Storage.DiskStore
import MailKeep.Storage.ConcurrentPut

/-! What the store leaves behind wherever a call fails or the process dies: whole blobs only, and none is lost. -/
namespace MailKeep
open Files Program

/-- Every blob that has its name holds bytes that are good for it. -/
structure Intact (root : Path) (good : AccountId → ContentHash → Bytes → Prop) (fs : FileSystem UInt8) : Prop where
  notDir : ∀ accountId hash, fs.dirs (blobPath root accountId hash) = false
  whole : ∀ accountId hash i, fs.entries (blobPath root accountId hash) = some i → good accountId hash (fs.contents i)

/-- A blob that has its name was synced with the bytes it has, and one whose entry was synced still has its name. -/
structure Lasting (root : Path) (d : Disk UInt8) : Prop where
  bytes : ∀ accountId hash i, d.fs.entries (blobPath root accountId hash) = some i →
    d.syncedContents i = d.fs.contents i
  entry : ∀ accountId hash i, d.syncedEntries (blobPath root accountId hash) = some i →
    d.fs.entries (blobPath root accountId hash) = some i

/-- No blob is lost or changed, nothing synced is taken back, and no entry above the blobs' directories is synced. -/
structure Keeps (root : Path) (s t : Disk UInt8) : Prop where
  blobs : ∀ accountId hash i, s.fs.entries (blobPath root accountId hash) = some i →
    t.fs.entries (blobPath root accountId hash) = some i ∧ t.fs.contents i = s.fs.contents i
  dirs : ∀ q, q.length ≤ root.length + 3 → t.syncedDirs q = s.syncedDirs q
  lasting : Lasting root s → Lasting root t
  entries : Lasting root s → ∀ accountId hash i, s.syncedEntries (blobPath root accountId hash) = some i →
    t.syncedEntries (blobPath root accountId hash) = some i

structure Writes (root : Path) (accountId : AccountId) (hash : ContentHash) (s t : Disk UInt8) :
    Prop extends Keeps root s t where
  others : ∀ accountId' hash', (accountId', hash') ≠ (accountId, hash) →
    t.fs.entries (blobPath root accountId' hash') = s.fs.entries (blobPath root accountId' hash')

section
variable {crypto : Crypto} {root : Path} {contents : Bytes → Prop} {good : AccountId → ContentHash → Bytes → Prop}
    {accountId : AccountId} {hash : ContentHash} {s t u : Disk UInt8}

theorem Keeps.refl (root : Path) (s : Disk UInt8) : Keeps root s s :=
  ⟨fun _ _ _ h => ⟨h, rfl⟩, fun _ _ => rfl, id, fun _ _ _ _ h => h⟩

theorem Keeps.trans (h : Keeps root s t) (h' : Keeps root t u) : Keeps root s u where
  blobs := by
    intro a k i hi
    obtain ⟨ht, same⟩ := h.blobs a k i hi
    obtain ⟨hu, same'⟩ := h'.blobs a k i ht
    exact ⟨hu, same'.trans same⟩
  dirs := fun q hq => (h'.dirs q hq).trans (h.dirs q hq)
  lasting := fun hs => h'.lasting (h.lasting hs)
  entries := fun hs a k i hi => h'.entries (h.lasting hs) a k i (h.entries hs a k i hi)

theorem Writes.refl (root : Path) (accountId : AccountId) (hash : ContentHash) (s : Disk UInt8) :
    Writes root accountId hash s s :=
  { Keeps.refl root s with others := fun _ _ _ => rfl }

theorem Writes.trans (h : Writes root accountId hash s t) (h' : Writes root accountId hash t u) :
    Writes root accountId hash s u :=
  { h.toKeeps.trans h'.toKeeps with others := fun a k ne => (h'.others a k ne).trans (h.others a k ne) }

theorem blobPath_length (root : Path) (accountId : AccountId) (hash : ContentHash) :
    (blobPath root accountId hash).length = root.length + 4 := by
  simp [blobPath]

theorem parent_blobPath_length (root : Path) (accountId : AccountId) (hash : ContentHash) :
    (parent (blobPath root accountId hash)).length = root.length + 3 := by
  simp [parent, blobPath]

/-- A call that leaves every blob, its directories and its synced state alone. -/
theorem Intact.aside (h : Intact root good s.fs)
    (dirs : ∀ a k, t.fs.dirs (blobPath root a k) = s.fs.dirs (blobPath root a k))
    (entries : ∀ a k, t.fs.entries (blobPath root a k) = s.fs.entries (blobPath root a k))
    (bytes : ∀ a k i, s.fs.entries (blobPath root a k) = some i →
      t.fs.contents i = s.fs.contents i ∧ t.syncedContents i = s.syncedContents i)
    (syncedDirs : t.syncedDirs = s.syncedDirs) (syncedEntries : t.syncedEntries = s.syncedEntries) :
    Intact root good t.fs ∧ Writes root accountId hash s t := by
  refine ⟨⟨fun a k => (dirs a k).trans (h.notDir a k), fun a k i hi => ?_⟩,
    ⟨fun a k i hi => ⟨(entries a k).trans hi, (bytes a k i hi).1⟩, fun q _ => by rw [syncedDirs], fun hs => ?_,
      fun _ a k i hi => syncedEntries ▸ hi⟩, fun a k _ => entries a k⟩
  · rw [entries] at hi
    exact (bytes a k i hi).1 ▸ h.whole a k i hi
  · refine ⟨fun a k i hi => ?_, fun a k i hi => ?_⟩
    · rw [entries] at hi
      rw [(bytes a k i hi).1, (bytes a k i hi).2, hs.bytes a k i hi]
    · rw [entries]
      exact hs.entry a k i (syncedEntries ▸ hi)

private theorem createDirAll_intact (h : Intact root good s.fs) (accountId : AccountId)
    (hash : ContentHash) (cut : Option (Nat × IoError)) :
    Intact root good (s.createDirAll (parent (blobPath root accountId hash)) cut).2.fs ∧
      Writes root accountId hash s (s.createDirAll (parent (blobPath root accountId hash)) cut).2 ∧
      (s.createDirAll (parent (blobPath root accountId hash)) cut).2.fs.entries = s.fs.entries := by
  have made (depth : Nat) : Intact root good
    (s.makeDirs (parent (blobPath root accountId hash)) depth).fs ∧
      Writes root accountId hash s (s.makeDirs (parent (blobPath root accountId hash)) depth) := by
    refine h.aside (fun a k => ?_) (fun _ _ => rfl) (fun _ _ _ _ => ⟨rfl, rfl⟩) rfl rfl
    refine (Bool.or_eq_left_iff_imp.mpr fun deep => ?_)
    obtain ⟨-, above, -⟩ := of_decide_eq_true deep
    have := above.length_le
    rw [blobPath_length, parent_blobPath_length] at this
    omega
  unfold Disk.createDirAll
  split
  · exact ⟨(made _).1, (made _).2, rfl⟩
  · split
    · exact ⟨h, .refl _ _ _ _, rfl⟩
    · exact ⟨(made _).1, (made _).2, rfl⟩

/-- The temporary file holds `held`, is open through `handle`, if at all, and has been synced, if `synced`; the blob has no name yet. -/
structure StagedFile (root : Path) (accountId : AccountId) (hash : ContentHash)
    (handle : Option Nat) (synced : Bool) (held : Bytes)
    (d : Disk UInt8) : Prop where
  absent : d.fs.entries (blobPath root accountId hash) = none
  file : ∃ i, d.fs.entries (tempPath (blobPath root accountId hash)) = some i ∧ d.fs.contents i = held ∧
    (∀ h, handle = some h → d.fs.handles h = some (i, held.length)) ∧ (synced = true → d.syncedContents i = held)

/-- No blob is the temporary file. -/
private theorem blob_ne_temp {i : Nat} (temp : s.fs.entries (tempPath (blobPath root accountId hash)) = some i)
    {a : AccountId} {k : ContentHash} {j : Nat} (blob : s.fs.entries (blobPath root a k) = some j) : j ≠ i := by
  rintro rfl
  exact tempPath_ne_blobPath (s.fs.entry_inj temp blob)

private theorem create_intact (h : Intact root good s.fs)
    (absent : s.fs.entries (blobPath root accountId hash) = none) :
    let r := s.create (tempPath (blobPath root accountId hash))
    (Intact root good r.2.fs ∧ Writes root accountId hash s r.2) ∧
      ∀ handle, r.1 = .ok handle → StagedFile root accountId hash (some handle) false [] r.2 ∧ r.2.Behind handle [] [] := by
  intro r
  rcases FileSystem.create_cases s.fs (tempPath (blobPath root accountId hash)) with ⟨e, failed⟩ | made
  · have same : r = (.error e, { s with unreported := Function.update s.unreported s.fs.nextHandle none }) := by
      simp only [r, Disk.create, failed]
    rw [same]
    refine ⟨h.aside (fun _ _ => rfl) (fun _ _ => rfl) (fun _ _ _ _ => ⟨rfl, rfl⟩) rfl rfl, fun _ ok => by cases ok⟩
  · have same : r = (.ok s.fs.nextHandle, { s with
        fs := s.fs.openTruncated (tempPath (blobPath root accountId hash))
        unreported := Function.update s.unreported s.fs.nextHandle none }) := by
      simp only [r, Disk.create, made]
    have entries (a k) : (s.fs.openTruncated (tempPath (blobPath root accountId hash))).entries
      (blobPath root a k) =
        s.fs.entries (blobPath root a k) := Function.update_of_ne tempPath_ne_blobPath.symm _ _
    rw [same]
    refine ⟨h.aside (fun _ _ => rfl) entries (fun a k i hi => ⟨Function.update_of_ne ?_ _ _, rfl⟩) rfl rfl, fun handle ok => ?_⟩
    · rintro rfl
      exact tempPath_ne_blobPath (FileSystem.entries_inodeFor hi).symm
    · cases ok
      refine ⟨⟨(entries _ _).trans absent, s.fs.inodeFor _, Function.update_self _ _ _, Function.update_self _ _ _, ?_, nofun⟩, ?_⟩
      · rintro _ ⟨⟩
        exact Function.update_self _ _ _
      · simp only [Disk.Behind, Function.update_self]

/-- Bytes written to the temporary file touch no blob. -/
private theorem written_intact (h : Intact root good s.fs) {handle : Nat} {held : Bytes}
    (staged : StagedFile root accountId hash (some handle) false held s) (part : Bytes) (unreported : Nat → Option IoError) :
    let after : Disk UInt8 := { s with fs := (s.fs.write handle part).2, unreported := unreported }
    (Intact root good after.fs ∧ Writes root accountId hash s after) ∧
      StagedFile root accountId hash (some handle) false (held ++ part) after := by
  intro after
  obtain ⟨absent, i, temp, contents, opened, -⟩ := staged
  obtain ⟨-, entries, dirs, bytes, handles⟩ : _ ∧ after.fs.entries = s.fs.entries ∧ after.fs.dirs = s.fs.dirs ∧
    after.fs.contents = _ ∧ after.fs.handles = _ :=
    FileSystem.write_some (opened handle rfl) part
  refine ⟨h.aside (fun _ _ => by rw [dirs]) (fun _ _ => by rw [entries]) (fun a k j hj => ⟨?_, rfl⟩) rfl rfl, ?_⟩
  · exact (congrFun bytes j).trans (Function.update_of_ne (blob_ne_temp temp hj) _ _)
  · refine ⟨(congrFun entries _).trans absent, i, (congrFun entries _).trans temp, (congrFun bytes i).trans ?_, ?_, nofun⟩
    · rw [Function.update_self, contents, FileSystem.splice_length]
    · rintro _ ⟨⟩
      apply (congrFun handles handle).trans
      rw [Function.update_self, List.length_append]

private theorem write_intact (h : Intact root good s.fs) {handle : Nat} {held handed data : Bytes}
    (staged : StagedFile root accountId hash (some handle) false held s) (behind : s.Behind handle held handed)
    (some_left : data ≠ []) (outcome : WriteOutcome) :
    let r := s.writeBehind handle data outcome
    (Intact root good r.2.fs ∧ Writes root accountId hash s r.2) ∧
      ∀ n, r.1 = .ok n → n = (data.take maxBufSize).length ∧ ∃ held', StagedFile root accountId hash (some handle) false held' r.2 ∧
        r.2.Behind handle held' (handed ++ data.take maxBufSize) := by
  intro r
  obtain ⟨i, -, -, opened, -⟩ := staged.file
  cases answer : r.1 with
  | error e =>
    obtain ⟨unreported, same⟩ := Disk.writeBehind_error (opened handle rfl) answer
    rw [show r.2 = _ from same]
    exact ⟨h.aside (fun _ _ => rfl) (fun _ _ => rfl) (fun _ _ _ _ => ⟨rfl, rfl⟩) rfl rfl, fun _ ok => by cases ok⟩
  | ok n =>
    obtain ⟨length, part, unreported, same, behind'⟩ := Disk.writeBehind_ok (opened handle rfl) some_left behind answer
    obtain ⟨kept, staged'⟩ := written_intact h staged part unreported
    rw [show r.2 = _ from same]
    refine ⟨kept, fun m ok => ⟨Except.ok.inj ok ▸ length, held ++ part, staged', ?_⟩⟩
    rwa [← show r.2 = _ from same]

private theorem syncFile_intact (h : Intact root good s.fs) {handle : Nat} {held : Bytes}
    (staged : StagedFile root accountId hash (some handle) false held s) :
    (Intact root good (s.syncFile handle).2.fs ∧ Writes root accountId hash s (s.syncFile handle).2) ∧
      StagedFile root accountId hash (some handle) true held (s.syncFile handle).2 := by
  obtain ⟨absent, i, temp, contents, opened, -⟩ := staged
  rw [Disk.syncFile_some (opened handle rfl)]
  refine ⟨h.aside (t := { s with syncedContents := Function.update s.syncedContents i (s.fs.contents i) }) (fun _ _ => rfl)
    (fun _ _ => rfl) (fun a k j hj => ⟨rfl, ?_⟩) rfl rfl, absent, i, temp, contents, opened, fun _ => ?_⟩
  · exact Function.update_of_ne (blob_ne_temp temp hj) _ _
  · exact (Function.update_self _ _ _).trans contents

private theorem close_intact (h : Intact root good s.fs) {handle : Nat} {held : Bytes}
    (staged : StagedFile root accountId hash (some handle) true held s) :
    (Intact root good (s.fs.close handle) ∧ Writes root accountId hash s { s with fs := s.fs.close handle }) ∧
      StagedFile root accountId hash none true held { s with fs := s.fs.close handle } := by
  obtain ⟨absent, i, temp, contents, -, synced⟩ := staged
  exact ⟨h.aside (t := { s with fs := s.fs.close handle }) (fun _ _ => rfl) (fun _ _ => rfl) (fun _ _ _ _ => ⟨rfl, rfl⟩) rfl rfl,
    absent, i, temp, contents, nofun, synced⟩

private theorem rename_intact (h : Intact root good s.fs) {held : Bytes}
    (staged : StagedFile root accountId hash none true held s) (whole : good accountId hash held) :
    let r := s.fs.rename (tempPath (blobPath root accountId hash)) (blobPath root accountId hash)
    (Intact root good r.2 ∧ Writes root accountId hash s { s with fs := r.2 }) ∧
      ∃ i, r.2.entries (blobPath root accountId hash) = some i ∧ r.2.contents i = held := by
  intro r
  obtain ⟨absent, i, temp, contents, -, synced⟩ := staged
  obtain ⟨-, dirs, entries, bytes, -⟩ : _ ∧ r.2.dirs = s.fs.dirs ∧ r.2.entries = _ ∧
    r.2.contents = s.fs.contents ∧ _ :=
    FileSystem.rename_some tempPath_ne_blobPath temp
  have here : r.2.entries (blobPath root accountId hash) = some i := by
    rw [entries, Function.update_of_ne tempPath_ne_blobPath.symm, Function.update_self]
  have others (a k) (ne : blobPath root a k ≠ blobPath root accountId hash) :
      r.2.entries (blobPath root a k) = s.fs.entries (blobPath root a k) := by
    rw [entries, Function.update_of_ne tempPath_ne_blobPath.symm, Function.update_of_ne ne]
  -- a blob that had its name before is another one
  have before (a k) {j : Nat} (hj : s.fs.entries (blobPath root a k) = some j) :
      blobPath root a k ≠ blobPath root accountId hash :=
    fun same => by cases absent.symm.trans (same ▸ hj)
  refine ⟨⟨⟨fun a k => dirs ▸ h.notDir a k, fun a k j hj => ?_⟩, ⟨fun a k j hj => ?_, fun _ _ => rfl, fun hs => ?_, fun _ _ _ _ hj => hj⟩,
    fun a k ne => others a k fun same => ne (Prod.ext (blobPath_inj same).1 (blobPath_inj same).2)⟩, ?_⟩
  · rw [bytes]
    by_cases same : blobPath root a k = blobPath root accountId hash
    · obtain ⟨rfl, rfl⟩ := blobPath_inj same
      obtain rfl := Option.some.inj (here.symm.trans hj)
      exact contents ▸ whole
    · exact h.whole a k j (others a k same ▸ hj)
  · exact ⟨(others a k (before a k hj)).trans hj, by rw [bytes]⟩
  · refine ⟨fun a k j hj => ?_, fun a k j hj => ?_⟩
    · rw [bytes]
      by_cases same : blobPath root a k = blobPath root accountId hash
      · obtain rfl := Option.some.inj (here.symm.trans (same ▸ hj))
        exact (synced rfl).trans contents.symm
      · exact hs.bytes a k j (others a k same ▸ hj)
    · have old := hs.entry a k j hj
      exact (others a k (before a k old)).trans old
  · exact ⟨i, here, (congrFun bytes i).trans contents⟩

private theorem syncDir_intact (h : Intact root good s.fs) (accountId : AccountId) (hash : ContentHash) :
    (Intact root good (s.syncDir (parent (blobPath root accountId hash))).fs ∧
      Writes root accountId hash s (s.syncDir (parent (blobPath root accountId hash)))) ∧
      (s.syncDir (parent (blobPath root accountId hash))).syncedEntries (blobPath root accountId hash) =
        s.fs.entries (blobPath root accountId hash) := by
  have blob_ne (a k) : blobPath root a k ≠ [] := List.ne_nil_of_length_pos (by rw [blobPath_length]; omega)
  have after (a k) : (s.syncDir (parent (blobPath root accountId hash))).syncedEntries (blobPath root a k) =
      s.fs.entries (blobPath root a k) ∨ (s.syncDir (parent (blobPath root accountId hash))).syncedEntries (blobPath root a k) =
        s.syncedEntries (blobPath root a k) := ite_eq_or_eq _ _ _
  refine ⟨⟨h, ⟨fun _ _ _ hi => ⟨hi, rfl⟩, fun q hq => ?_, fun hs => ⟨hs.bytes, fun a k i hi => ?_⟩, fun hs a k i hi => ?_⟩,
    fun _ _ _ => rfl⟩, Disk.syncDir_entry (blob_ne _ _) rfl⟩
  · exact Disk.syncDir_dirs (by rw [parent_blobPath_length]; exact hq)
  · rcases after a k with now | old
    · exact now ▸ hi
    · exact hs.entry a k i (old ▸ hi)
  · rcases after a k with now | old
    · exact now.trans (hs.entry a k i hi)
    · exact old.trans hi

section Walk
variable {allowed : (diskMachine crypto).Allowed} {fate : Bytes → Bytes → Prop} {d : Disk UInt8}

/-- The contract of a call for one blob that has started from `d`. -/
abbrev putDisk (allowed : (diskMachine crypto).Allowed) (root : Path) (good : AccountId → ContentHash → Bytes → Prop)
    (accountId : AccountId) (hash : ContentHash) (d : Disk UInt8) : Contract (diskMachine crypto) :=
  .alone allowed (fun t => Intact root good t.fs ∧ Writes root accountId hash d t) fun _ _ => True

private theorem putDisk_stable : (putDisk allowed root good accountId hash d).Stable := Contract.alone_stable _ _ _

/-- A call of the store: what it leaves, and what is known where it succeeds. -/
private theorem diskCall_safe {o : StorageOp Unit} (ok : o.Value → Disk UInt8 → Prop)
    (step : Intact root good s.fs → ∀ c, allowed s o c → (Intact root good (diskExec crypto o c s).2.fs ∧
      Writes root accountId hash s (diskExec crypto o c s).2) ∧
        ∀ v, (diskExec crypto o c s).1 = .ok v → ok v (diskExec crypto o c s).2) :
    SafeAct (putDisk allowed root good accountId hash d) ok (fun _ _ => True)
      (call o : StorageAction Unit crypto o.Value) s := by
  apply SafeAct.call (M := diskMachine crypto)
  rintro s₁ ⟨intact, writes⟩ rfl c may
  obtain ⟨⟨intact', writes'⟩, known⟩ := step intact c may
  refine ⟨⟨intact', writes.trans writes'⟩, trivial, ?_⟩
  rintro t - rfl
  refine ⟨fun v hv => known v ?_, fun _ _ => trivial⟩
  change orInfrastructure (diskExec crypto o c s).1 = .ok v at hv
  cases reply : (diskExec crypto o c s).1 with
  | ok v' => rw [reply] at hv; cases hv; rfl
  | error e => rw [reply] at hv; cases hv

/-- All is handed over in the end, and what the file then lacks is unreported. -/
private theorem writeAll_disk {handle : Nat} {ct : Bytes} (fuel : Nat) (held handed data : Bytes)
    (enough : data.length ≤ fuel)
    (staged : StagedFile root accountId hash (some handle) false held s) (behind : s.Behind handle held handed)
    (whole : handed ++ data = ct) :
    SafeAct (putDisk allowed root good accountId hash d)
      (fun _ t => ∃ held, StagedFile root accountId hash (some handle) false held t ∧ t.Behind handle held ct)
      (fun _ _ => True) (writeAll handle fuel data : StorageAction Unit crypto Unit) s := by
  induction fuel generalizing held handed data s with
  | zero =>
    obtain rfl : data = [] := List.length_eq_zero_iff.mp (Nat.le_zero.mp enough)
    apply SafeAct.pure
    rintro t - rfl
    exact ⟨held, staged, by rwa [← whole, List.append_nil]⟩
  | succ fuel ih =>
    rw [writeAll]
    split
    · rename_i empty
      obtain rfl : data = [] := List.isEmpty_iff.mp empty
      apply SafeAct.pure
      rintro t - rfl
      exact ⟨held, staged, by rwa [← whole, List.append_nil]⟩
    · rename_i more
      have some_left : data ≠ [] := fun none => more (List.isEmpty_iff.mpr none)
      refine SafeAct.seq putDisk_stable (diskCall_safe (fun (n : Nat) t => n = (data.take maxBufSize).length ∧
          ∃ held', StagedFile root accountId hash (some handle) false held' t ∧
            t.Behind handle held' (handed ++ data.take maxBufSize)) fun intact c _ => ?_) ?_
      · exact write_intact intact staged behind some_left c
      rintro n t - ⟨rfl, held', staged', behind'⟩
      split
      · apply SafeAct.throw
        exact fun _ _ _ => trivial
      · rename_i some_taken
        have positive : 0 < (data.take maxBufSize).length := Nat.pos_of_ne_zero some_taken
        refine ih held' (handed ++ data.take maxBufSize) _ ?_ staged' behind' ?_
        · rw [List.length_drop]
          omega
        · rw [← whole, List.append_assoc]
          congr 1
          rw [List.length_take, List.take_eq_take_min]
          exact List.take_append_drop _ _

/-- A call that changes nothing. -/
private theorem idle_disk {o : StorageOp Unit} (know : Disk UInt8 → Prop)
    (still : ∀ c, (diskExec crypto o c s).2 = s) (hs : know s) :
    SafeAct (putDisk allowed root good accountId hash d) (fun _ t => know t) (fun _ _ => True)
      (call o : StorageAction Unit crypto o.Value) s :=
  diskCall_safe _ fun intact c _ => by
    rw [still c]
    exact ⟨⟨intact, .refl _ _ _ _⟩, fun _ _ => hs⟩

/-- What is known, where a file may be synced, of the bytes it holds against those handed over to it; a blob of one of the
contents is good with it. -/
structure Settles (allowed : (diskMachine crypto).Allowed) (contents : Bytes → Prop) (fate : Bytes → Bytes → Prop)
    (good : AccountId → ContentHash → Bytes → Prop) : Prop where
  synced : ∀ (d : Disk UInt8) handle (c : Option IoError) held handed, allowed d (.syncAll handle) c →
    d.Behind handle held handed → fate held handed
  blob : ∀ accountId plaintext nonce held, contents plaintext → fate held (crypto.encrypt nonce accountId plaintext) →
    good accountId (crypto.computeHash plaintext) held

theorem failuresTold_settles : Settles (failuresTold crypto) contents Eq (crypto.Encrypts contents) where
  synced := fun _ _ _ _ _ told behind => behind.eq told
  blob := fun _ plaintext nonce _ known whole => ⟨plaintext, nonce, known, rfl, whole⟩

abbrev anyBytes : AccountId → ContentHash → Bytes → Prop := fun _ _ _ => True

theorem failuresTold_settles_any : Settles (failuresTold crypto) contents Eq anyBytes where
  synced := fun _ _ _ _ _ told behind => behind.eq told
  blob := fun _ _ _ _ _ _ => trivial

theorem failuresHidden_settles :
    Settles (failuresHidden crypto) contents (fun held handed => held <+: handed ∧ held ≠ handed) anyBytes where
  synced := fun _ _ _ _ _ hidden behind => behind.torn hidden
  blob := fun _ _ _ _ _ _ => trivial

theorem anyOutcome_settles : Settles (anyOutcome crypto) contents (fun _ _ => True) anyBytes where
  synced := fun _ _ _ _ _ _ _ => trivial
  blob := fun _ _ _ _ _ _ => trivial

/-- A write that succeeds leaves the blob under its name, and the entry of the name synced. -/
private theorem atomicWriteAll_disk {ct : Bytes} (settles : Settles allowed contents fate good)
    (absent : s.fs.entries (blobPath root accountId hash) = none)
    (whole : ∀ held, fate held ct → good accountId hash held) :
    SafeAct (putDisk allowed root good accountId hash d)
      (fun _ t => ∃ i, t.fs.entries (blobPath root accountId hash) = some i ∧ fate (t.fs.contents i) ct ∧
        t.syncedEntries (blobPath root accountId hash) = some i)
      (fun _ _ => True) (atomicWriteAll () (blobPath root accountId hash) ct : StorageAction Unit crypto Unit) s := by
  refine SafeAct.seq putDisk_stable (diskCall_safe (fun _ t => t.fs.entries (blobPath root accountId hash) = none)
    fun intact c _ => ?_) fun _ t _ absent => ?_
  · obtain ⟨intact', writes, entries⟩ := createDirAll_intact intact accountId hash c
    exact ⟨⟨intact', writes⟩, fun _ _ => (congrFun entries _).trans absent⟩
  refine SafeAct.seq putDisk_stable (diskCall_safe (fun handle t => StagedFile root accountId hash (some handle) false [] t ∧
    t.Behind handle [] []) fun intact c _ => ?_) fun handle t _ ⟨staged, behind⟩ => ?_
  · cases c with
    | some e => exact ⟨⟨intact, .refl _ _ _ _⟩, fun _ ok => by cases ok⟩
    | none => exact create_intact intact absent
  apply SafeAct.seq putDisk_stable (writeAll_disk _ [] [] ct (Nat.le_refl _) staged behind rfl)
  rintro _ t - ⟨held, staged, behind⟩
  refine SafeAct.seq putDisk_stable (diskCall_safe (fun _ t => StagedFile root accountId hash (some handle) true held t ∧
    fate held ct) fun intact c may => ?_) fun _ t _ ⟨staged, settled⟩ => ?_
  · cases c with
    | some e => exact ⟨⟨intact, .refl _ _ _ _⟩, fun _ ok => by cases ok⟩
    | none =>
      obtain ⟨kept, staged'⟩ := syncFile_intact intact staged
      exact ⟨kept, fun _ _ => ⟨staged', settles.synced _ _ _ _ _ may behind⟩⟩
  refine SafeAct.seq putDisk_stable (diskCall_safe (fun _ t => StagedFile root accountId hash none true held t)
    fun intact _ _ => ?_) fun _ t _ staged => ?_
  · obtain ⟨kept, staged'⟩ := close_intact intact staged
    exact ⟨kept, fun _ _ => staged'⟩
  refine SafeAct.seq putDisk_stable (diskCall_safe (fun _ t => ∃ i, t.fs.entries (blobPath root accountId hash) = some i ∧
    fate (t.fs.contents i) ct) fun intact c _ => ?_) fun _ t _ named => ?_
  · cases c with
    | some e => exact ⟨⟨intact, .refl _ _ _ _⟩, fun _ ok => by cases ok⟩
    | none =>
      obtain ⟨kept, i, named, held⟩ := rename_intact intact staged (whole held settled)
      exact ⟨kept, fun _ _ => ⟨i, named, held ▸ settled⟩⟩
  refine SafeAct.seq putDisk_stable (idle_disk (fun t => ∃ i, t.fs.entries (blobPath root accountId hash) = some i ∧
    fate (t.fs.contents i) ct) (fun c => by cases c <;> rfl) named) fun _ t _ ⟨i, named, settled⟩ => ?_
  apply diskCall_safe _
  intro intact c _
  cases c with
  | some e => exact ⟨⟨intact, .refl _ _ _ _⟩, fun _ ok => by cases ok⟩
  | none =>
    obtain ⟨kept, synced⟩ := syncDir_intact intact accountId hash
    exact ⟨kept, fun _ _ => ⟨i, named, settled, synced.trans named⟩⟩

/-- What a call that returns a hash has done, from `d` on. -/
structure Stored (crypto : Crypto) (fate : Bytes → Bytes → Prop) (root : Path) (accountId : AccountId) (plaintext : Bytes)
    (d : Disk UInt8) (hash : ContentHash) (t : Disk UInt8) : Prop where
  hash_eq : hash = crypto.computeHash plaintext
  found : d.fs.entries (blobPath root accountId hash) ≠ none → t = d
  written : d.fs.entries (blobPath root accountId hash) = none → ∃ i nonce,
    t.fs.entries (blobPath root accountId hash) = some i ∧ t.syncedEntries (blobPath root accountId hash) = some i ∧
      fate (t.fs.contents i) (crypto.encrypt nonce accountId plaintext)

/-- The blob has its name when the call returns. -/
theorem Stored.named {plaintext : Bytes} (h : Stored crypto fate root accountId plaintext d hash t) :
    ∃ i, t.fs.entries (blobPath root accountId hash) = some i := by
  cases there : d.fs.entries (blobPath root accountId hash) with
  | none =>
    obtain ⟨i, -, named, -⟩ := h.written there
    exact ⟨i, named⟩
  | some i => exact ⟨i, (h.found (by rw [there]; exact Option.some_ne_none i)) ▸ there⟩

private theorem putIfAbsent_disk {plaintext : Bytes} (settles : Settles allowed contents fate good)
    (known : contents plaintext) :
    SafeAct (putDisk allowed root good accountId (crypto.computeHash plaintext) d)
      (Stored crypto fate root accountId plaintext d) (fun _ _ => True)
      (putIfAbsent () root accountId plaintext : StorageAction Unit crypto ContentHash) d := by
  refine SafeAct.seq putDisk_stable (diskCall_safe (fun there t => t = d ∧
      (there = true ↔ d.fs.entries (blobPath root accountId (crypto.computeHash plaintext)) ≠ none))
        fun intact c _ => ?_) ?_
  · cases c with
    | some e => exact ⟨⟨intact, .refl _ _ _ _⟩, fun _ ok => by cases ok⟩
    | none =>
      refine ⟨⟨intact, .refl _ _ _ _⟩, fun there ok => ⟨rfl, ?_⟩⟩
      rw [← Except.ok.inj ok, FileSystem.pathExists, intact.notDir, Bool.false_or, Option.isSome_iff_ne_none]
  rintro there t - ⟨rfl, there_iff⟩
  split
  · rename_i present
    apply SafeAct.pure
    rintro u - rfl
    exact ⟨rfl, fun _ => rfl, fun none => absurd none (there_iff.mp present)⟩
  · rename_i missing
    have absent : t.fs.entries (blobPath root accountId (crypto.computeHash plaintext)) = none :=
      not_not.mp fun some => missing (there_iff.mpr some)
    refine SafeAct.seq putDisk_stable (diskCall_safe (fun ct u => u = t ∧ ∃ nonce, ct = crypto.encrypt nonce accountId plaintext)
      fun intact nonce _ => ⟨⟨intact, .refl _ _ _ _⟩, fun _ ok => ⟨rfl, nonce, (Except.ok.inj ok).symm⟩⟩) ?_
    rintro ct u - ⟨rfl, nonce, rfl⟩
    apply SafeAct.seq putDisk_stable (atomicWriteAll_disk settles absent fun _ => settles.blob _ _ nonce _ known)
    rintro _ v - ⟨i, named, held, synced⟩
    apply SafeAct.pure
    rintro w - rfl
    exact ⟨rfl, fun some => absurd absent some, fun _ => ⟨i, nonce, named, synced, held⟩⟩

/-- A call for a blob keeps the disk intact and the other blobs alone, however far it has come. -/
theorem storeBlob_reaches {plaintext : Bytes} (settles : Settles allowed contents fate good) (known : contents plaintext)
    (intact : Intact root good s.fs) {rest : Prog (diskMachine crypto).toSignature (Except Error ContentHash)}
    (made : Program.Reaches allowed (storeBlob crypto root accountId plaintext, s) (rest, t)) :
    Intact root good t.fs ∧ Writes root accountId (crypto.computeHash plaintext) s t :=
  ((putIfAbsent_disk settles known).reaches putDisk_stable ⟨intact, .refl _ _ _ _⟩ made).1

theorem storeBlob_runs {plaintext : Bytes} (settles : Settles allowed contents fate good) (known : contents plaintext)
    (intact : Intact root good s.fs)
    (done : Runs allowed (storeBlob crypto root accountId plaintext) s (.ok hash) t) :
    Stored crypto fate root accountId plaintext s hash t :=
  ((putIfAbsent_disk settles known).runs putDisk_stable ⟨intact, .refl _ _ _ _⟩ done).2

theorem StoreStep.keeps (step : StoreStep allowed root contents s t) (settles : Settles allowed contents fate good)
    (intact : Intact root good s.fs) : Intact root good t.fs ∧ Keeps root s t := by
  cases step with
  | call accountId plaintext known rest made =>
    obtain ⟨intact', writes⟩ := storeBlob_reaches settles known intact made
    exact ⟨intact', writes.toKeeps⟩
  | crash => exact ⟨⟨intact.notDir, intact.whole⟩, fun _ _ _ hi => ⟨hi, rfl⟩, fun _ _ => rfl, fun h => ⟨h.bytes, h.entry⟩,
      fun _ _ _ _ hi => hi⟩

theorem StoreReaches.keeps (run : StoreReaches allowed root contents s t) (settles : Settles allowed contents fate good)
    (intact : Intact root good s.fs) : Intact root good t.fs ∧ Keeps root s t := by
  induction run with
  | refl => exact ⟨intact, .refl _ _⟩
  | tail _ step ih =>
    obtain ⟨intact', keeps⟩ := step.keeps settles ih.1
    exact ⟨intact', ih.2.trans keeps⟩

end Walk

/-- A complete ciphertext of a content reads back as the content. -/
private theorem Crypto.Encrypts.decrypts {bytes plaintext : Bytes}
    (h : crypto.Encrypts contents accountId hash bytes) (round : crypto.RoundTrip)
    (free : crypto.CollisionFree contents) (known : contents plaintext)
    (same : hash = crypto.computeHash plaintext) :
    crypto.decrypt accountId bytes = .ok plaintext := by
  obtain ⟨p, nonce, hp, hashed, rfl⟩ := h
  rw [free p plaintext hp known (hashed.trans same)]
  exact round nonce accountId plaintext

theorem Intact.read (h : Intact root good s.fs) (accountId : AccountId) (hash : ContentHash) :
    (s.fs.entries (blobPath root accountId hash) = none ∧ s.fs.read (blobPath root accountId hash) = .error enoent) ∨
      ∃ i, s.fs.entries (blobPath root accountId hash) = some i ∧
        s.fs.read (blobPath root accountId hash) = .ok (s.fs.contents i) := by
  unfold FileSystem.read
  cases named : s.fs.entries (blobPath root accountId hash) with
  | none => exact .inl ⟨rfl, by rw [h.notDir]; rfl⟩
  | some i => exact .inr ⟨i, rfl, rfl⟩

/-- Blobs that have their names and bytes for good. -/
private theorem Intact.read_same (before : Intact root good s.fs) (after : Intact root good t.fs)
    (writes : Writes root accountId hash s t) {accountId' : AccountId} {hash' : ContentHash}
    (other : (accountId', hash') ≠ (accountId, hash)) :
    t.fs.read (blobPath root accountId' hash') = s.fs.read (blobPath root accountId' hash') := by
  have same := writes.others accountId' hash' other
  rcases before.read accountId' hash' with ⟨none, absent⟩ | ⟨i, named, read⟩
  · rcases after.read accountId' hash' with ⟨-, absent'⟩ | ⟨i, named', -⟩
    · rw [absent, absent']
    · cases (same.trans none).symm.trans named'
  · rcases after.read accountId' hash' with ⟨none', -⟩ | ⟨j, named', read'⟩
    · cases (same.trans named).symm.trans none'
    · obtain rfl := Option.some.inj ((same.trans named).symm.trans named')
      rw [read, read', (writes.blobs accountId' hash' i named).2]

/-- The store is atomic under failures and crashes wherever the failing writes are reported: each blob is absent or whole
whatever came of the calls so far, and a blob whose hash was returned reads back from then on. A call for one blob leaves
all others as they are, reported or not. -/
theorem blob_store_crash_atomic (round : crypto.RoundTrip) (free : crypto.CollisionFree contents)
    (intact : Intact root (crypto.Encrypts contents) s.fs) :
    (∀ t, StoreReaches (failuresTold crypto) root contents s t →
      (∀ accountId hash, t.fs.read (blobPath root accountId hash) = .error enoent ∨
        ∃ bytes plaintext, t.fs.read (blobPath root accountId hash) = .ok bytes ∧ crypto.computeHash plaintext = hash ∧
          crypto.Encrypts contents accountId hash bytes ∧ crypto.decrypt accountId bytes = .ok plaintext) ∧
      ∀ accountId plaintext, contents plaintext → ∀ hash u,
        Runs (failuresTold crypto) (storeBlob crypto root accountId plaintext) t (.ok hash) u →
          hash = crypto.computeHash plaintext ∧ ∀ v, StoreReaches (failuresTold crypto) root contents u v →
            getBlob crypto v.fs root accountId hash = .ok plaintext) ∧
    ∀ t, StoreReaches (anyOutcome crypto) root contents s t → ∀ accountId plaintext, contents plaintext → ∀ rest u,
      Program.Reaches (anyOutcome crypto) (storeBlob crypto root accountId plaintext, t) (rest, u) →
        ∀ accountId' hash', (accountId', hash') ≠ (accountId, crypto.computeHash plaintext) →
          u.fs.read (blobPath root accountId' hash') = t.fs.read (blobPath root accountId' hash') := by
  refine ⟨fun t run => ⟨fun accountId hash => ?_, fun accountId plaintext known hash u done => ?_⟩,
    fun t run accountId plaintext known rest u made accountId' hash' other => ?_⟩
  · have now := (run.keeps failuresTold_settles intact).1
    rcases now.read accountId hash with ⟨-, absent⟩ | ⟨i, named, read⟩
    · exact .inl absent
    · obtain ⟨plaintext, nonce, known, hashed, bytes⟩ := now.whole accountId hash i named
      exact .inr ⟨_, plaintext, read, hashed, ⟨plaintext, nonce, known, hashed, bytes⟩, bytes ▸ round nonce accountId plaintext⟩
  · have now := (run.keeps failuresTold_settles intact).1
    have stored := storeBlob_runs failuresTold_settles known now done
    refine ⟨stored.hash_eq, fun v later => ?_⟩
    obtain ⟨i, named⟩ := stored.named
    obtain ⟨intact', keeps⟩ := later.keeps failuresTold_settles (storeBlob_reaches failuresTold_settles known now done).1
    have named' := (keeps.blobs accountId hash i named).1
    rw [getBlob_eq_readBlob]
    refine readBlob_ok.mpr ⟨v.fs.contents i, by rw [FileSystem.read, named'], ?_⟩
    exact (intact'.whole accountId hash i named').decrypts round free known stored.hash_eq
  · have plain : Intact root anyBytes s.fs := ⟨intact.notDir, fun _ _ _ _ => trivial⟩
    have now := (run.keeps anyOutcome_settles plain).1
    obtain ⟨after, writes⟩ := storeBlob_reaches anyOutcome_settles known now made
    exact now.read_same after writes other

end

namespace OneBlob
open TwoWriters

def zeroHash : ContentHash := ⟨.replicate 32 0⟩

def emptyDisk (dirs : Path → Bool) : Disk UInt8 := ⟨.empty dirs, dirs, fun _ => none, fun _ => [], fun _ => none⟩

/-- No call fails. -/
def calmly : (o : StorageOp Unit) → DiskChoice cipher o
  | .encrypt _ _ => (1 : UInt8)
  | .write _ _ => .done
  | .close _ => ()
  | .tryExists _ | .createDirAll _ | .create _ _ | .syncAll _ | .rename _ _ | .openDir _ | .syncDir _ => none

def filled : (o : StorageOp Unit) → DiskChoice cipher o
  | .write _ _ => .failed 0 ⟨.other, "No space left on device (os error 28)"⟩
  | o => calmly o

def played (pick : (o : StorageOp Unit) → DiskChoice cipher o) (n : Nat) (d : Disk UInt8) :
    Prog (diskMachine cipher).toSignature (Except Error ContentHash) × Disk UInt8 :=
  (diskMachine cipher).follow pick n (storeBlob cipher [] 1 [7], d)

theorem played_reaches (pick : (o : StorageOp Unit) → DiskChoice cipher o) (n : Nat) (d : Disk UInt8) :
    Program.Reaches (anyOutcome cipher) (storeBlob cipher [] 1 [7], d) (played pick n d) :=
  reaches_follow (M := diskMachine cipher) (fun _ _ => trivial) n _

private theorem calmly_follows (n : Nat) (p : Prog (diskMachine cipher).toSignature (Except Error ContentHash))
    {d : Disk UInt8}
    (told : ∀ handle, d.unreported handle = none) :
    (diskMachine cipher).Follows (failuresTold cipher) calmly n (p, d) := by
  induction n generalizing p d with
  | zero => trivial
  | succ n ih =>
    rcases p with a | ⟨o, next⟩
    · trivial
    · have quiet : ∀ handle, (diskExec cipher o (calmly o) d).2.unreported handle = none := by
        intro handle
        cases o with
        | create caller path =>
          change Function.update d.unreported d.fs.nextHandle none handle = none
          rw [Function.update_apply]
          split
          · rfl
          · exact told handle
        | write h data => simp [diskExec, calmly, Disk.writeBehind, told h, told handle]
        | createDirAll dir =>
          change (d.createDirAll dir none).2.unreported handle = none
          unfold Disk.createDirAll
          dsimp only
          split
          · exact told handle
          · exact told handle
        | syncAll h =>
          change (d.syncFile h).2.unreported handle = none
          unfold Disk.syncFile
          split
          · exact told handle
          · exact told handle
        | _ => exact told handle
      refine ⟨?_, ih _ quiet⟩
      cases o with
      | syncAll h => exact told h
      | _ => trivial

theorem played_told (n : Nat) {d : Disk UInt8} (told : ∀ handle, d.unreported handle = none) :
    Program.Reaches (failuresTold cipher) (storeBlob cipher [] 1 [7], d) (played calmly n d) :=
  (calmly_follows n _ told).reaches

/-- Steps that come to the end of the program are a run. -/
theorem played_runs {allowed : (diskMachine cipher).Allowed} {pick : (o : StorageOp Unit) → DiskChoice cipher o} {n : Nat}
    {d : Disk UInt8} {r : Except Error ContentHash}
    (made : Program.Reaches allowed (storeBlob cipher [] 1 [7], d) (played pick n d)) (returned : (played pick n d).1 = .ret r) :
    Runs allowed (storeBlob cipher [] 1 [7]) d r (played pick n d).2 := by
  rw [← Prod.eta (played pick n d), returned] at made
  exact made

theorem free : cipher.CollisionFree (· = [7]) := fun _ _ h h' _ => h.trans h'.symm

theorem emptyDisk_intact {good : AccountId → ContentHash → Bytes → Prop} {dirs : Path → Bool}
    (above : ∀ a k, dirs (blobPath [] a k) = false) : Intact [] good (emptyDisk dirs).fs :=
  ⟨above, fun _ _ _ h => by cases h⟩

end OneBlob
open OneBlob TwoWriters

set_option maxRecDepth 4000 in
/-- The first call is cut when the temporary file is written; the second one stores the blob. -/
theorem blob_store_crash_atomic_cut :
    let cut := (played calmly 5 (emptyDisk fun _ => false)).2.crash
    let again := played calmly 20 cut
    cut.fs.read (blobPath [] 1 zeroHash) = .error enoent ∧ again.1 = .ret (.ok zeroHash) ∧
      ∀ v, StoreReaches (failuresTold cipher) [] (· = [7]) again.2 v → getBlob cipher v.fs [] 1 zeroHash = .ok [7] := by
  intro cut again
  have run : StoreReaches (failuresTold cipher) [] (· = [7]) (emptyDisk fun _ => false) cut :=
    .tail (.single (.call 1 [7] rfl _ (played_told 5 fun _ => rfl))) .crash
  have returned : again.1 = .ret (.ok zeroHash) := rfl
  obtain ⟨-, stored⟩ :=
    (blob_store_crash_atomic TwoWriters.roundTrip free (emptyDisk_intact fun _ _ => rfl)).1 cut run
  exact ⟨rfl, returned, (stored 1 [7] rfl zeroHash again.2 (played_runs (played_told 20 fun _ => rfl) returned)).2⟩

set_option maxRecDepth 4000 in
/-- The disk is full when the one write is done; the call returns its hash over an empty file. -/
theorem blob_store_torn : ∃ u, Runs (anyOutcome cipher) (storeBlob cipher [] 1 [7]) (emptyDisk fun _ => false) (.ok zeroHash) u ∧
    u.fs.read (blobPath [] 1 zeroHash) = .ok [] ∧ getBlob cipher u.fs [] 1 zeroHash = .error .decryptionFailed :=
  ⟨(played filled 20 (emptyDisk fun _ => false)).2, played_runs (played_reaches filled 20 _) rfl, rfl, rfl⟩

end MailKeep
