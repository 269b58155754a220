import MailKeep.Program.Only
import MailKeep.Storage.CrashAtomicity

/-! What of the store outlasts a power loss: a call syncs the blob's own directory only, nothing at all where the blob has
its name already, and a torn file where nobody was told that its last write had failed. -/
namespace MailKeep
open Files Program

/-- The directories above a blob have been synced on the way down. If the blob has its name, so has its entry, and the blob
is whole. -/
structure Grounded (crypto : Crypto) (root : Path) (accountId : AccountId) (plaintext : Bytes) (d : Disk UInt8) : Prop where
  above : d.standing (parent (blobPath root accountId (crypto.computeHash plaintext))) = true
  entry : d.fs.entries (blobPath root accountId (crypto.computeHash plaintext)) ≠ none →
    d.syncedEntries (blobPath root accountId (crypto.computeHash plaintext)) =
      d.fs.entries (blobPath root accountId (crypto.computeHash plaintext))
  whole : d.fs.entries (blobPath root accountId (crypto.computeHash plaintext)) ≠ none →
    getBlob crypto d.fs root accountId (crypto.computeHash plaintext) = .ok plaintext

section
variable {crypto : Crypto} {root : Path} {contents : Bytes → Prop} {accountId : AccountId} {hash : ContentHash}
  {plaintext : Bytes} {s t u v : Disk UInt8}

/-- No call syncs an entry above the blobs' own directories. -/
theorem Keeps.standing (h : Keeps root s t) :
    t.standing (parent (blobPath root accountId hash)) = s.standing (parent (blobPath root accountId hash)) :=
  Disk.standing_congr fun q short => h.dirs q (short.trans_eq (parent_blobPath_length root accountId hash))

theorem getBlob_ok : getBlob crypto s.fs root accountId hash = .ok plaintext ↔
    ∃ i, s.fs.entries (blobPath root accountId hash) = some i ∧ crypto.decrypt accountId (s.fs.contents i) = .ok plaintext := by
  rw [getBlob_eq_readBlob, readBlob_ok, FileSystem.read]
  cases s.fs.entries (blobPath root accountId hash) with
  | none => simp
  | some i => simp

/-- After a power loss a blob is what it was, if it can still be reached. -/
theorem Lasting.get (lasting : Lasting root s) : getAfterPowerLoss crypto s root accountId hash = .ok plaintext ↔
    s.standing (parent (blobPath root accountId hash)) = true ∧ ∃ i, s.fs.entries (blobPath root accountId hash) = some i ∧
      s.syncedEntries (blobPath root accountId hash) = some i ∧ crypto.decrypt accountId (s.fs.contents i) = .ok plaintext := by
  rw [getAfterPowerLoss, readBlob_ok]
  simp only [Disk.readAfterPowerLoss_ok]
  constructor
  · rintro ⟨bytes, ⟨above, i, synced, rfl⟩, decrypted⟩
    have named := lasting.entry accountId hash i synced
    exact ⟨above, i, named, synced, lasting.bytes accountId hash i named ▸ decrypted⟩
  · rintro ⟨above, i, named, synced, decrypted⟩
    exact ⟨_, ⟨above, i, synced, lasting.bytes accountId hash i named⟩, decrypted⟩

private def NoSync : StorageOp Unit → Prop
  | .syncAll _ => False
  | _ => True

private theorem writeAll_noSync (handle fuel : Nat) (data : Bytes) :
    OnlyAct NoSync (writeAll handle fuel data : StorageAction Unit crypto Unit) := by
  induction fuel generalizing data with
  | zero => exact OnlyAct.pure ()
  | succ fuel ih =>
    rw [writeAll]
    split
    · exact OnlyAct.pure ()
    · refine OnlyAct.seq (OnlyAct.op trivial) fun n => ?_
      split
      · exact OnlyAct.throw _
      · exact ih _

private theorem told_of_noSync (d : Disk UInt8) (o : StorageOp Unit) (c : DiskChoice crypto o) (noSync : NoSync o) :
    failuresTold crypto d o c := by
  cases o with
  | syncAll handle => exact noSync.elim
  | _ => trivial

private theorem hidden_of_noSync (d : Disk UInt8) (o : StorageOp Unit) (c : DiskChoice crypto o) (noSync : NoSync o) :
    failuresHidden crypto d o c := by
  cases o with
  | syncAll handle => exact noSync.elim
  | _ => trivial

private theorem atomicWriteAll_cases {path : Path} {bytes : Bytes}
    (run : Runs (anyOutcome crypto) (atomicWriteAll () path bytes : StorageAction Unit crypto Unit).run s (.ok ()) t) :
    Runs (failuresTold crypto) (atomicWriteAll () path bytes : StorageAction Unit crypto Unit).run s (.ok ()) t ∨
      Runs (failuresHidden crypto) (atomicWriteAll () path bytes : StorageAction Unit crypto Unit).run s (.ok ()) t := by
  obtain ⟨_, made, hmade, run⟩ := runs_seq.mp run
  obtain ⟨f, opened, hopened, run⟩ := runs_seq.mp run
  obtain ⟨_, written, hwritten, run⟩ := runs_seq.mp run
  obtain ⟨_, synced, hsynced, run⟩ := runs_seq.mp run
  obtain ⟨c, -, reply, after⟩ := runs_op.mp hsynced
  have again {allowed : (diskMachine crypto).Allowed} (plain : ∀ d o c, NoSync o → allowed d o c)
      (sync : allowed written (.syncAll f) c) :
      Runs allowed (atomicWriteAll () path bytes : StorageAction Unit crypto Unit).run s (.ok ()) t := by
    have part {α : Type} {x : StorageAction Unit crypto α} (only : OnlyAct NoSync x) {d e : Disk UInt8} {r : Except Error α}
        (h : Runs (anyOutcome crypto) x.run d r e) : Runs allowed x.run d r e :=
      Prog.Only.runs_imp (M := diskMachine crypto) only (fun d o c noSync _ => plain d o c noSync) h
    refine runs_seq.mpr ⟨_, made, part (x := call (.createDirAll _)) (OnlyAct.op trivial) hmade, ?_⟩
    refine runs_seq.mpr ⟨f, opened, part (x := call (.create () _)) (OnlyAct.op trivial) hopened, ?_⟩
    refine runs_seq.mpr ⟨_, written, part (writeAll_noSync _ _ _) hwritten, ?_⟩
    refine runs_seq.mpr ⟨_, synced, runs_op.mpr ⟨c, sync, reply, after⟩, part ?_ run⟩
    exact OnlyAct.seq (OnlyAct.op trivial) fun _ => OnlyAct.seq (OnlyAct.op trivial) fun _ =>
      OnlyAct.seq (OnlyAct.op trivial) fun _ => OnlyAct.op trivial
  cases failed : written.unreported f with
  | none => exact .inl (again told_of_noSync failed)
  | some e => exact .inr (again hidden_of_noSync fun none => by cases failed.symm.trans none)

/-- Only a call that writes the blob can keep a failed write to itself. -/
private theorem storeBlob_cases (notDir : s.fs.dirs (blobPath root accountId (crypto.computeHash plaintext)) = false)
    (run : Runs (anyOutcome crypto) (storeBlob crypto root accountId plaintext) s (.ok hash) t) :
    Runs (failuresTold crypto) (storeBlob crypto root accountId plaintext) s (.ok hash) t ∨
      s.fs.entries (blobPath root accountId (crypto.computeHash plaintext)) = none ∧
        Runs (failuresHidden crypto) (storeBlob crypto root accountId plaintext) s (.ok hash) t := by
  obtain ⟨there, looked, hlooked, run⟩ := runs_seq.mp run
  obtain ⟨c, -, reply, rfl⟩ := runs_op.mp hlooked
  have first {allowed : (diskMachine crypto).Allowed} (may : allowed s (.tryExists _) c) :=
    runs_op.mpr ⟨c, may, reply, rfl⟩
  cases there with
  | true =>
    obtain ⟨same, rfl⟩ := runs_ret.mp run
    exact .inl (runs_seq.mpr ⟨true, _, first trivial, runs_ret.mpr ⟨same, rfl⟩⟩)
  | false =>
    obtain ⟨ct, sealed, hsealed, run⟩ := runs_seq.mp run
    obtain ⟨_, stored, hstored, run⟩ := runs_seq.mp run
    obtain ⟨nonce, -, text, after⟩ := runs_op.mp hsealed
    have absent : s.fs.entries (blobPath root accountId (crypto.computeHash plaintext)) = none := by
      cases c with
      | some e => cases reply
      | none =>
        have missing : s.fs.pathExists (blobPath root accountId (crypto.computeHash plaintext)) = false := Except.ok.inj reply
        rw [FileSystem.pathExists, notDir, Bool.false_or] at missing
        exact Option.isNone_iff_eq_none.mp (Option.isSome_eq_false_iff.mp missing)
    have done := runs_ret.mp run
    rcases atomicWriteAll_cases hstored with told | hidden
    · exact .inl (runs_seq.mpr ⟨false, _, first trivial, runs_seq.mpr ⟨ct, sealed,
        runs_op.mpr ⟨nonce, trivial, text, after⟩, runs_seq.mpr ⟨_, stored, told, runs_ret.mpr done⟩⟩⟩)
    · exact .inr ⟨absent, runs_seq.mpr ⟨false, _, first trivial, runs_seq.mpr ⟨ct, sealed,
        runs_op.mpr ⟨nonce, trivial, text, after⟩, runs_seq.mpr ⟨_, stored, hidden, runs_ret.mpr done⟩⟩⟩⟩

/-- A blob that a call with a hidden failure has written does not read back. -/
theorem Stored.torn (stored : Stored crypto (fun held handed => held <+: handed ∧ held ≠ handed) root accountId plaintext t hash u)
    (sealed : crypto.Sealed) (absent : t.fs.entries (blobPath root accountId (crypto.computeHash plaintext)) = none) :
    getBlob crypto u.fs root accountId hash ≠ .ok plaintext := by
  intro reads
  obtain ⟨i, named, decrypted⟩ := getBlob_ok.mp reads
  obtain ⟨j, nonce, named', -, part, short⟩ := stored.written (stored.hash_eq ▸ absent)
  obtain rfl := Option.some.inj (named.symm.trans named')
  exact short (sealed nonce accountId plaintext _ part decrypted)

/-- Right after a call that was told of each failure the blob reads back, and its entry is synced, if a blob found there does
so and has been. -/
theorem Stored.reads (stored : Stored crypto Eq root accountId plaintext t hash u) (round : crypto.RoundTrip)
    (grounded : Grounded crypto root accountId plaintext t) : ∃ i, u.fs.entries (blobPath root accountId hash) = some i ∧
      u.syncedEntries (blobPath root accountId hash) = some i ∧ crypto.decrypt accountId (u.fs.contents i) = .ok plaintext := by
  obtain rfl := stored.hash_eq
  by_cases absent : t.fs.entries (blobPath root accountId (crypto.computeHash plaintext)) = none
  · obtain ⟨i, nonce, named, synced, whole⟩ := stored.written absent
    exact ⟨i, named, synced, whole ▸ round nonce accountId plaintext⟩
  · obtain rfl := stored.found absent
    obtain ⟨i, named, decrypted⟩ := getBlob_ok.mp (grounded.whole absent)
    exact ⟨i, named, (grounded.entry absent).trans named, decrypted⟩

/-- A blob whose hash was returned outlasts every later power loss exactly if the directories above it had been synced when
the call was made, a blob that was there then was whole and its entry synced, and the call was told of each write that had
failed when it synced the file. -/
theorem acknowledged_blob_durable (round : crypto.RoundTrip) (sealed : crypto.Sealed)
    (intact : Intact root anyBytes s.fs) (lasting : Lasting root s) (run : StoreReaches (anyOutcome crypto) root contents s t)
    (known : contents plaintext)
    (done : Runs (anyOutcome crypto) (storeBlob crypto root accountId plaintext) t (.ok hash) u) :
    (∀ v, StoreReaches (anyOutcome crypto) root contents u v → getAfterPowerLoss crypto v root accountId hash = .ok plaintext) ↔
      Grounded crypto root accountId plaintext t ∧
        Runs (failuresTold crypto) (storeBlob crypto root accountId plaintext) t (.ok hash) u := by
  obtain ⟨now, kept⟩ := run.keeps anyOutcome_settles intact
  obtain ⟨after, writes⟩ := storeBlob_reaches anyOutcome_settles known now done
  have stored := storeBlob_runs anyOutcome_settles known now done
  have lastingNow := kept.lasting lasting
  have lastingAfter := writes.lasting lastingNow
  constructor
  · intro durable
    obtain ⟨above, i, named, synced, decrypted⟩ := lastingAfter.get.mp (durable u .refl)
    obtain rfl := stored.hash_eq
    refine ⟨⟨writes.standing.symm.trans above, fun there => ?_, fun there => ?_⟩, ?_⟩
    · obtain rfl := stored.found there
      exact synced.trans named.symm
    · obtain rfl := stored.found there
      exact getBlob_ok.mpr ⟨i, named, decrypted⟩
    · rcases storeBlob_cases (now.notDir _ _) done with told | ⟨absent, hidden⟩
      · exact told
      · have torn := (storeBlob_runs failuresHidden_settles known now hidden).torn sealed absent
        exact absurd (getBlob_ok.mpr ⟨i, named, decrypted⟩) torn
  · rintro ⟨grounded, told⟩ v later
    obtain ⟨i, named, synced, decrypted⟩ := (storeBlob_runs failuresTold_settles_any known now told).reads round grounded
    obtain ⟨-, keeps⟩ := later.keeps anyOutcome_settles after
    obtain ⟨named', same⟩ := keeps.blobs accountId hash i named
    obtain rfl := stored.hash_eq
    exact (keeps.lasting lastingAfter).get.mpr ⟨(keeps.standing.trans writes.standing).trans grounded.above, i, named',
      keeps.entries lastingAfter accountId _ i synced, same ▸ decrypted⟩

end
open OneBlob TwoWriters

def aboveBlob (q : Path) : Bool := decide (q ≠ [] ∧ q <+: parent (blobPath [] 1 zeroHash))

set_option maxRecDepth 4000 in
/-- A call returns the hash and a power loss takes the blob: the directories it has made are not synced, or an earlier
call was cut between the rename and the sync of the directory, or the disk was full. -/
theorem acknowledged_blob_lost :
    (∃ u, Runs (anyOutcome cipher) (storeBlob cipher [] 1 [7]) (emptyDisk fun _ => false) (.ok zeroHash) u ∧
      getAfterPowerLoss cipher u [] 1 zeroHash = .error (.blobNotFound 1 zeroHash.asHex)) ∧
    (∃ t u, StoreReaches (anyOutcome cipher) [] (· = [7]) (emptyDisk aboveBlob) t ∧
      Runs (anyOutcome cipher) (storeBlob cipher [] 1 [7]) t (.ok zeroHash) u ∧
      getAfterPowerLoss cipher u [] 1 zeroHash = .error (.blobNotFound 1 zeroHash.asHex)) ∧
    ∃ u, Runs (anyOutcome cipher) (storeBlob cipher [] 1 [7]) (emptyDisk aboveBlob) (.ok zeroHash) u ∧
      getAfterPowerLoss cipher u [] 1 zeroHash = .error .decryptionFailed := by
  have cut : StoreReaches (anyOutcome cipher) [] (· = [7]) (emptyDisk aboveBlob)
      (played calmly 8 (emptyDisk aboveBlob)).2.crash :=
    .tail (.single (.call 1 [7] rfl _ (played_reaches calmly 8 _))) .crash
  refine ⟨⟨_, played_runs (played_reaches calmly 20 _) rfl, rfl⟩, ⟨_, _, cut, played_runs (played_reaches calmly 20 _) rfl, rfl⟩,
    ⟨_, played_runs (played_reaches filled 20 _) rfl, rfl⟩⟩

private theorem cipher_sealed : cipher.Sealed := by
  intro (nonce : UInt8) accountId plaintext bytes part decrypted
  cases bytes with
  | nil => cases decrypted
  | cons first rest =>
    change (if rest.getLast? = some first then Except.ok rest.dropLast else .error Error.decryptionFailed) = .ok plaintext at decrypted
    split at decrypted
    · rename_i last
      have some_left : 0 < rest.length := List.length_pos_of_mem (List.mem_of_getLast? last)
      have lengths := congrArg List.length (Except.ok.inj decrypted)
      rw [List.length_dropLast] at lengths
      apply part.eq_of_length
      change rest.length + 1 = (plaintext ++ [nonce]).length + 1
      rw [List.length_append, List.length_singleton]
      omega
    · cases decrypted

set_option maxRecDepth 4000 in
theorem acknowledged_blob_durable_once :
    let stored := played calmly 20 (emptyDisk aboveBlob)
    stored.1 = .ret (.ok zeroHash) ∧ ∀ v, StoreReaches (anyOutcome cipher) [] (· = [7]) stored.2 v →
      getAfterPowerLoss cipher v [] 1 zeroHash = .ok [7] := by
  intro stored
  have returned : stored.1 = .ret (.ok zeroHash) := rfl
  have intact : Intact [] anyBytes (emptyDisk aboveBlob).fs := by
    refine emptyDisk_intact fun a k => decide_eq_false fun deep => ?_
    have := deep.2.length_le
    rw [blobPath_length, parent_blobPath_length] at this
    omega
  have lasting : Lasting [] (emptyDisk aboveBlob) := by
    constructor <;> intro a k i h <;> cases h
  have fresh : StoreReaches (anyOutcome cipher) [] (· = [7]) (emptyDisk aboveBlob) (emptyDisk aboveBlob) := .refl
  have grounded : Grounded cipher [] 1 [7] (emptyDisk aboveBlob) :=
    ⟨Disk.standing_iff.mpr fun q above ne => decide_eq_true ⟨ne, above⟩, fun there => absurd rfl there, fun there => absurd rfl there⟩
  exact ⟨returned, (acknowledged_blob_durable TwoWriters.roundTrip cipher_sealed intact lasting fresh rfl
    (played_runs (played_reaches calmly 20 _) returned)).mpr ⟨grounded, played_runs (played_told 20 fun _ => rfl) returned⟩⟩

end MailKeep
