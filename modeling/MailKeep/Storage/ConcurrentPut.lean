import MailKeep.Storage.Blob

/-! Concurrent stores of one plaintext: when a returned hash can be read back. -/
namespace MailKeep
open Files Program

variable {ι : Type} {crypto : Crypto}

/-- No call fails on its own and a write takes at least one byte. -/
def noFault : (storageMachine ι crypto).Allowed
  | _, .write _ _, (n : Nat) => 0 < n
  | _, .encrypt _ _, _ => True
  | _, .close _, _ => True
  | _, .tryExists _, c => c = none
  | _, .createDirAll _, c => c = none
  | _, .create _ _, c => c = none
  | _, .syncAll _, c => c = none
  | _, .rename _ _, c => c = none
  | _, .openDir _, c => c = none
  | _, .syncDir _, c => c = none

/-- Nobody creates the temporary file while another call has created it and not yet renamed it. -/
def noOverlap : (storageMachine ι crypto).Allowed
  | s, .create caller path, c => noFault s (.create caller path) c ∧ s.writer = none
  | s, o, c => noFault s o c

/-- Every caller stores the same plaintext for the same account, any number of times. -/
def putSystem (ι : Type) (crypto : Crypto) (allowed : (storageMachine ι crypto).Allowed) (root : Path)
    (accountId : AccountId) (plaintext : Bytes) : System (storageMachine ι crypto) ι
      (Except Error ContentHash) where
  allowed := allowed
  root _ me p := p = (putIfAbsent me root accountId plaintext).run
  env _ _ := False
  crash _ _ := False

private theorem parent_blobPath_ne (root : Path) (accountId : AccountId) (hash : ContentHash) :
    parent (blobPath root accountId hash) ≠ blobPath root accountId hash := by
  intro h
  have := congrArg List.length h
  simp [parent, blobPath] at this

theorem tempPath_ne (path : Path) : tempPath path ≠ path := by
  intro h
  have := congrArg (fun p : Path => (p.getLastD "").length) h
  have h1 : ".".length = 1 := rfl
  simp only [tempPath, List.getLastD_concat, String.length_append, h1] at this
  omega

private theorem parent_tempPath (path : Path) : parent (tempPath path) = parent path := by
  simp [parent, tempPath]

private theorem tempPath_ne_parent (path : Path) : tempPath path ≠ parent path := by
  intro h
  have := congrArg List.length h
  simp [tempPath, parent] at this

section Contract
variable (crypto) (path : Path) (accountId : AccountId) (plaintext : Bytes)

/-- Whatever the blob's path names decrypts to the plaintext and nobody has it open; without
a writer nobody has the temporary file open either. -/
structure BlobSound (s : BlobState ι) : Prop where
  notDir : s.fs.dirs path = false
  tempNotDir : s.fs.dirs (tempPath path) = false
  readable : ∀ i, s.fs.entries path = some i → crypto.decrypt accountId (s.fs.contents i) = .ok plaintext
  closed : ∀ i, s.fs.entries path = some i → ∀ h off, s.fs.handles h ≠ some (i, off)
  idle : s.writer = none → ∀ i, s.fs.entries (tempPath path) = some i → ∀ h off, s.fs.handles h ≠ some (i, off)

/-- A stored blob and a directory stay, and the writer's temporary file is left alone. -/
structure BlobRely (me : ι) (s t : BlobState ι) : Prop where
  stored : s.fs.entries path ≠ none → t.fs.entries path ≠ none
  dirs : ∀ d, s.fs.dirs d = true → t.fs.dirs d = true
  mine : s.writer = some me → t.writer = some me ∧
    t.fs.entries (tempPath path) = s.fs.entries (tempPath path) ∧
    ∀ i, s.fs.entries (tempPath path) = some i → t.fs.contents i = s.fs.contents i ∧
      ∀ h off, t.fs.handles h = some (i, off) ↔ s.fs.handles h = some (i, off)

/-- The caller's own temporary file holds `done`; it has it open through `handle`, if at all. -/
structure Writing (me : ι) (handle : Option Nat) (done : Bytes) (s : BlobState ι) : Prop where
  writer : s.writer = some me
  dir : s.fs.dirs (parent path) = true
  file : ∃ i, s.fs.entries (tempPath path) = some i ∧ s.fs.contents i = done ∧
    ∀ h off, s.fs.handles h = some (i, off) ↔ handle = some h ∧ off = done.length

def Placed (s : BlobState ι) : Prop := s.fs.entries path ≠ none ∧ s.fs.dirs (parent path) = true

def putContract (me : ι) : Contract (storageMachine ι crypto) where
  allowed := noOverlap
  valid := BlobSound crypto path accountId plaintext
  rely := BlobRely path me
  guar s t := (∀ other, other ≠ me → BlobRely path other s t) ∧
    (s.fs.entries path ≠ none → t.fs.entries path ≠ none)

end Contract

variable {path : Path} {accountId : AccountId} {plaintext : Bytes} {me : ι}

theorem BlobRely.refl (me : ι) (s : BlobState ι) : BlobRely path me s s :=
  ⟨id, fun _ h => h, fun h => ⟨h, rfl, fun _ _ => ⟨rfl, fun _ _ => Iff.rfl⟩⟩⟩

theorem BlobRely.trans {a b c : BlobState ι} (h : BlobRely path me a b) (h' : BlobRely path me b c) :
    BlobRely path me a c where
  stored := fun hs => h'.stored (h.stored hs)
  dirs := fun d hd => h'.dirs d (h.dirs d hd)
  mine := by
    intro hw
    obtain ⟨hwb, hbe, hbf⟩ := h.mine hw
    obtain ⟨hwc, hce, hcf⟩ := h'.mine hwb
    refine ⟨hwc, hce.trans hbe, fun i hi => ?_⟩
    obtain ⟨hb, hbh⟩ := hbf i hi
    obtain ⟨hc, hch⟩ := hcf i (hbe.trans hi)
    exact ⟨hc.trans hb, fun h off => (hch h off).trans (hbh h off)⟩

theorem putContract_stable : (putContract crypto path accountId plaintext me).Stable :=
  ⟨BlobRely.refl me, fun h h' => h.trans h'⟩

theorem Writing.mono {handle : Option Nat} {done : Bytes} {s t : BlobState ι}
    (h : Writing path me handle done s) (hr : BlobRely path me s t) : Writing path me handle done t := by
  obtain ⟨hw, he, hf⟩ := hr.mine h.writer
  obtain ⟨i, hi, hc, hh⟩ := h.file
  obtain ⟨hc', hh'⟩ := hf i hi
  exact ⟨hw, hr.dirs _ h.dir, i, he.trans hi, hc'.trans hc, fun g off => (hh' g off).trans (hh g off)⟩

theorem Placed.mono {s t : BlobState ι} (h : Placed path s) (hr : BlobRely path me s t) : Placed path t :=
  ⟨hr.stored h.1, hr.dirs _ h.2⟩

section Steps
variable {s : BlobState ι}

private theorem createDirAll_step (hs : BlobSound crypto path accountId plaintext s) (hp : parent path ≠ path) :
    BlobSound crypto path accountId plaintext { s with fs := s.fs.createDirAll (parent path) } ∧
      (∀ other, BlobRely path other s { s with fs := s.fs.createDirAll (parent path) }) ∧
      (s.fs.createDirAll (parent path)).dirs (parent path) = true := by
  refine ⟨⟨?_, ?_, hs.readable, hs.closed, hs.idle⟩, fun other => ?_, by simp [FileSystem.createDirAll]⟩
  · simpa [FileSystem.createDirAll, hp.symm] using hs.notDir
  · simpa [FileSystem.createDirAll, tempPath_ne_parent] using hs.tempNotDir
  · refine ⟨id, fun d hd => ?_, fun h => ⟨h, rfl, fun _ _ => ⟨rfl, fun _ _ => Iff.rfl⟩⟩⟩
    simp only [FileSystem.createDirAll, Function.update_apply]
    split
    · rfl
    · exact hd

private theorem create_step (me : ι) (hs : BlobSound crypto path accountId plaintext s)
    (hd : s.fs.dirs (parent path) = true) (hw : s.writer = none) :
    s.fs.create (tempPath path) = (.ok s.fs.nextHandle, s.fs.openTruncated (tempPath path)) ∧
      BlobSound crypto path accountId plaintext ⟨s.fs.openTruncated (tempPath path), some me⟩ ∧
      (∀ other, BlobRely path other s ⟨s.fs.openTruncated (tempPath path), some me⟩) ∧
      (s.fs.entries path ≠ none → (s.fs.openTruncated (tempPath path)).entries path ≠ none) ∧
      Writing path me (some s.fs.nextHandle) [] ⟨s.fs.openTruncated (tempPath path), some me⟩ := by
  have hother : ∀ i, s.fs.entries path = some i → i ≠ s.fs.inodeFor (tempPath path) :=
    fun i hi he => tempPath_ne path (FileSystem.entries_inodeFor (he ▸ hi)).symm
  have hentry : (s.fs.openTruncated (tempPath path)).entries path = s.fs.entries path :=
    Function.update_of_ne (tempPath_ne path).symm _ _
  refine ⟨FileSystem.create_ok (by rw [parent_tempPath, hd]) hs.tempNotDir, ⟨hs.notDir, hs.tempNotDir, ?_, ?_, ?_⟩,
    fun other => ⟨hentry ▸ id, fun d h => h, ?_⟩, hentry ▸ id, ⟨rfl, hd, s.fs.inodeFor (tempPath path), ?_, ?_, ?_⟩⟩
  · intro i hi
    rw [hentry] at hi
    simp only [FileSystem.openTruncated, Function.update_of_ne (hother i hi)]
    exact hs.readable i hi
  · intro i hi h off hh
    rw [hentry] at hi
    simp only [FileSystem.openTruncated, Function.update_apply] at hh
    split at hh
    · cases hh
      exact hother _ hi rfl
    · exact hs.closed i hi h off hh
  · intro h
    cases h
  · rw [hw]
    intro h
    cases h
  · exact Function.update_self _ _ _
  · exact Function.update_self _ _ _
  · intro h off
    simp only [FileSystem.openTruncated, Function.update_apply]
    split
    · rename_i he
      subst he
      simp [eq_comm]
    · rename_i he
      constructor
      · intro hh
        cases ht : s.fs.entries (tempPath path) with
        | some i => exact absurd (FileSystem.inodeFor_eq ht ▸ hh) (hs.idle hw i ht h off)
        | none =>
          have := (s.fs.handle_lt hh).2
          simp [FileSystem.inodeFor, ht] at this
      · rintro ⟨hh, -⟩
        exact absurd (Option.some.inj hh).symm he

private theorem write_step (hs : BlobSound crypto path accountId plaintext s) {handle : Nat} {done : Bytes}
    (hW : Writing path me (some handle) done s) (data : Bytes) :
    (s.fs.write handle data).1 = .ok data.length ∧
      BlobSound crypto path accountId plaintext { s with fs := (s.fs.write handle data).2 } ∧
      (s.fs.entries path ≠ none → (s.fs.write handle data).2.entries path ≠ none) ∧
      (∀ other, other ≠ me → BlobRely path other s { s with fs := (s.fs.write handle data).2 }) ∧
      Writing path me (some handle) (done ++ data) { s with fs := (s.fs.write handle data).2 } := by
  obtain ⟨i, hi, hc, hh⟩ := hW.file
  obtain ⟨hr, he, hdirs, hcont, hhand⟩ := FileSystem.write_some ((hh handle done.length).mpr ⟨rfl, rfl⟩) data
  have hother : ∀ j, s.fs.entries path = some j → j ≠ i :=
    fun j hj hji => tempPath_ne path (s.fs.entry_inj hi (hji ▸ hj))
  refine ⟨hr, ⟨hdirs ▸ hs.notDir, hdirs ▸ hs.tempNotDir, ?_, ?_, ?_⟩, he ▸ id,
    fun other hne => ⟨he ▸ id, fun d h => hdirs ▸ h, ?_⟩, ⟨hW.writer, hdirs ▸ hW.dir, i, he ▸ hi, ?_, ?_⟩⟩
  · intro j hj
    rw [he] at hj
    rw [hcont, Function.update_of_ne (hother j hj)]
    exact hs.readable j hj
  · intro j hj g off hg
    rw [he] at hj
    simp only [hhand, Function.update_apply] at hg
    split at hg
    · cases hg
      exact hother _ hj rfl
    · exact hs.closed j hj g off hg
  · rw [hW.writer]
    intro h
    cases h
  · rw [hW.writer]
    intro h
    exact absurd (Option.some.inj h).symm hne
  · rw [hcont, Function.update_self, hc, FileSystem.splice_length]
  · intro g off
    simp only [hhand, Function.update_apply, List.length_append]
    split
    · rename_i hg
      subst hg
      simp [eq_comm]
    · rename_i hg
      rw [hh]
      constructor <;> exact fun h => absurd (Option.some.inj h.1).symm hg

private theorem close_step (hs : BlobSound crypto path accountId plaintext s) {handle : Nat} {done : Bytes}
    (hW : Writing path me (some handle) done s) :
    BlobSound crypto path accountId plaintext { s with fs := s.fs.close handle } ∧
      (∀ other, other ≠ me → BlobRely path other s { s with fs := s.fs.close handle }) ∧
      Writing path me none done { s with fs := s.fs.close handle } := by
  obtain ⟨i, hi, hc, hh⟩ := hW.file
  have hsub : ∀ g j off, (s.fs.close handle).handles g = some (j, off) → g ≠ handle ∧
      s.fs.handles g = some (j, off) := by
    intro g j off hg
    simp only [FileSystem.close, Function.update_apply] at hg
    split at hg
    · cases hg
    · exact ⟨‹_›, hg⟩
  refine ⟨⟨hs.notDir, hs.tempNotDir, hs.readable, fun j hj g off hg => hs.closed j hj g off (hsub g j off hg).2, ?_⟩,
    fun other hne => ⟨id, fun d h => h, ?_⟩, ⟨hW.writer, hW.dir, i, hi, hc, fun g off => ⟨fun hg => ?_, fun h => ?_⟩⟩⟩
  · rw [hW.writer]
    intro h
    cases h
  · rw [hW.writer]
    intro h
    exact absurd (Option.some.inj h).symm hne
  · obtain ⟨hne, hg'⟩ := hsub g i off hg
    exact absurd (Option.some.inj ((hh g off).mp hg').1).symm hne
  · cases h.1

private theorem rename_step (hs : BlobSound crypto path accountId plaintext s) {ct : Bytes}
    (hW : Writing path me none ct s) (hct : crypto.decrypt accountId ct = .ok plaintext) :
    (s.fs.rename (tempPath path) path).1 = .ok () ∧
      BlobSound crypto path accountId plaintext (⟨(s.fs.rename (tempPath path) path).2, none⟩ : BlobState ι) ∧
      (∀ other, other ≠ me → BlobRely path other s ⟨(s.fs.rename (tempPath path) path).2, none⟩) ∧
      Placed path (⟨(s.fs.rename (tempPath path) path).2, none⟩ : BlobState ι) := by
  obtain ⟨i, hi, hc, hh⟩ := hW.file
  obtain ⟨hr, hdirs, he, hcont, hhand⟩ := FileSystem.rename_some (tempPath_ne path) hi
  have hpath : (s.fs.rename (tempPath path) path).2.entries path = some i := by
    rw [he, Function.update_of_ne (tempPath_ne path).symm, Function.update_self]
  have htemp : (s.fs.rename (tempPath path) path).2.entries (tempPath path) = none := by
    rw [he, Function.update_self]
  refine ⟨hr, ⟨hdirs ▸ hs.notDir, hdirs ▸ hs.tempNotDir, ?_, ?_, ?_⟩, fun other hne => ⟨?_, fun d h => hdirs ▸ h, ?_⟩,
    hpath ▸ Option.some_ne_none i, hdirs ▸ hW.dir⟩
  · intro j hj
    obtain rfl := Option.some.inj (hpath.symm.trans hj)
    rw [hcont, hc]
    exact hct
  · intro j hj g off hg
    obtain rfl := Option.some.inj (hpath.symm.trans hj)
    rw [hhand] at hg
    cases ((hh g off).mp hg).1
  · intro _ j hj
    cases htemp.symm.trans hj
  · intro _
    rw [hpath]
    exact Option.some_ne_none i
  · rw [hW.writer]
    intro h
    exact absurd (Option.some.inj h).symm hne

end Steps

/-- A call that succeeds whatever the environment may pick. -/
theorem call_safe {C : Contract (storageMachine ι crypto)} {o : StorageOp ι} {s : BlobState ι}
    {ok : o.Value → BlobState ι → Prop} {err : Error → BlobState ι → Prop}
    (h : ∀ s₁, C.valid s₁ → C.rely s s₁ → ∀ c, C.allowed s₁ o c → ∃ a s₂,
      storageExec crypto o c s₁ = (.ok a, s₂) ∧ C.valid s₂ ∧ C.guar s₁ s₂ ∧
        ∀ t, C.valid t → C.rely s₂ t → ok a t) : SafeAct C ok err (call o) s := by
  intro s₁ hv hr c hc
  obtain ⟨a, s₂, he, hv₂, hg, hk⟩ := h s₁ hv hr c hc
  have hx : (storageMachine ι crypto).exec o c s₁ = (.ok a, s₂) := he
  rw [hx]
  exact ⟨hv₂, hg, hk⟩

section Safety
variable {s : BlobState ι}

private theorem writeAll_safe {handle : Nat} {ct : Bytes} (fuel : Nat) (done data : Bytes) (hf : data.length ≤ fuel)
    (hW : Writing path me (some handle) done s) (hct : done ++ data = ct) :
    SafeAct (putContract crypto path accountId plaintext me)
      (fun _ t => Writing path me (some handle) ct t) (fun _ _ => False) (writeAll handle fuel data) s := by
  induction fuel generalizing done data s with
  | zero =>
    obtain rfl : data = [] := List.length_eq_zero_iff.mp (Nat.le_zero.mp hf)
    exact SafeAct.pure fun t _ hr => by simpa [← hct] using hW.mono hr
  | succ fuel ih =>
    rw [writeAll]
    split
    · rename_i he
      obtain rfl : data = [] := List.isEmpty_iff.mp he
      exact SafeAct.pure fun t _ hr => by simpa [← hct] using hW.mono hr
    · rename_i he
      refine SafeAct.bind putContract_stable (call_safe ?_)
      rintro s₁ hv hr (n : Nat) (hn : 0 < n)
      obtain ⟨hreply, hs, hstored, hg, hW'⟩ := write_step hv (hW.mono hr) (data.take n)
      refine ⟨(data.take n).length, { s₁ with fs := (s₁.fs.write handle (data.take n)).2 }, ?_, hs, ⟨hg, hstored⟩, ?_⟩
      · simp only [storageExec, hreply]
      · intro t _ hrt
        have hpos : 0 < (data.take n).length := by
          have : 0 < data.length := List.length_pos_iff.mpr fun h => he (List.isEmpty_iff.mpr h)
          rw [List.length_take]
          omega
        rw [if_neg (Nat.pos_iff_ne_zero.mp hpos)]
        refine ih (done ++ data.take n) _ ?_ (hW'.mono hrt) ?_
        · rw [List.length_drop]
          omega
        · rw [← hct, List.append_assoc]
          congr 1
          rw [List.length_take, List.take_eq_take_min]
          exact List.take_append_drop _ _

private theorem create_safe (hd : s.fs.dirs (parent path) = true) :
    SafeAct (putContract crypto path accountId plaintext me)
      (fun handle t => Writing path me (some handle) [] t) (fun _ _ => False)
      (call (.create me (tempPath path))) s := by
  apply call_safe
  rintro s₁ hv hr c ⟨rfl, hw⟩
  have hd₁ := hr.dirs _ hd
  obtain ⟨hreply, hs, hg, hstored, hW⟩ := create_step me hv hd₁ hw
  refine ⟨s₁.fs.nextHandle, _, by simp only [storageExec, hreply], hs, ⟨fun other _ => hg other, hstored⟩, ?_⟩
  exact fun t _ hrt => hW.mono hrt

private theorem close_safe {handle : Nat} {ct : Bytes} (hW : Writing path me (some handle) ct s) :
    SafeAct (putContract crypto path accountId plaintext me) (fun _ t => Writing path me none ct t)
      (fun _ _ => False) (call (.close handle)) s := by
  apply call_safe
  intro s₁ hv hr c _
  obtain ⟨hs, hg, hW'⟩ := close_step hv (hW.mono hr)
  exact ⟨(), _, rfl, hs, ⟨hg, id⟩, fun t _ hrt => hW'.mono hrt⟩

private theorem rename_safe {ct : Bytes} (hW : Writing path me none ct s)
    (hct : crypto.decrypt accountId ct = .ok plaintext) :
    SafeAct (putContract crypto path accountId plaintext me) (fun _ t => Placed path t)
      (fun _ _ => False) (call (.rename (tempPath path) path)) s := by
  apply call_safe
  rintro s₁ hv hr c rfl
  have hW₁ := hW.mono hr
  obtain ⟨hreply, hs, hg, hplaced⟩ := rename_step hv hW₁ hct
  exact ⟨(), _, by simp only [storageExec, hreply], hs, ⟨hg, fun _ => hplaced.1⟩, fun t _ hrt => hplaced.mono hrt⟩

/-- A call that only looks: what the caller knows and others keep, it still knows afterwards. -/
private theorem idle_safe {o : StorageOp ι} {know : BlobState ι → Prop} (a : o.Value)
    (hexec : ∀ s₁ c, noOverlap s₁ o c → know s₁ → storageExec crypto o c s₁ = (.ok a, s₁))
    (keep : ∀ s t, know s → BlobRely path me s t → know t) (hs : know s) :
    SafeAct (putContract crypto path accountId plaintext me) (fun _ t => know t) (fun _ _ => False) (call o) s := by
  apply call_safe
  intro s₁ hv hr c hc
  have hk := keep _ _ hs hr
  exact ⟨a, s₁, hexec s₁ c hc hk, hv, ⟨fun other _ => BlobRely.refl other s₁, id⟩, fun t _ hrt => keep _ _ hk hrt⟩

private theorem atomicWriteAll_safe {ct : Bytes} (hp : parent path ≠ path)
    (hct : crypto.decrypt accountId ct = .ok plaintext) :
    SafeAct (putContract crypto path accountId plaintext me)
      (fun _ t => Placed path t) (fun _ _ => False) (atomicWriteAll me path ct) s := by
  refine SafeAct.bind putContract_stable (call_safe ?_)
  rintro s₁ hv hr c rfl
  obtain ⟨hs, hg, hd⟩ := createDirAll_step hv hp
  refine ⟨(), _, rfl, hs, ⟨fun other _ => hg other, id⟩, fun t _ hrt => ?_⟩
  apply SafeAct.seq putContract_stable (create_safe (hrt.dirs _ hd))
  intro handle _ _ hW
  apply SafeAct.seq putContract_stable (writeAll_safe _ [] ct (Nat.le_refl _) hW rfl)
  intro _ _ _ hW
  refine SafeAct.seq putContract_stable (idle_safe () ?_ (fun _ _ hk hr => hk.mono hr) hW) fun _ _ _ hW => ?_
  · rintro s₁ c rfl _
    rfl
  apply SafeAct.seq putContract_stable (close_safe hW)
  intro _ _ _ hW
  apply SafeAct.seq putContract_stable (rename_safe hW hct)
  intro _ _ _ hP
  refine SafeAct.seq putContract_stable (idle_safe () ?_ (fun _ _ hk hr => hk.mono hr) hP) fun _ _ _ hP => ?_
  · rintro s₁ c rfl hk
    change ((if s₁.fs.dirs (parent path) then Except.ok () else Except.error enoent), s₁) = _
    rw [if_pos hk.2]
  · refine idle_safe () ?_ (fun _ _ hk hr => hk.mono hr) hP
    rintro s₁ c rfl _
    rfl

/-- Storing never fails, and leaves the blob under the hash of the plaintext. -/
private theorem putIfAbsent_safe (round : crypto.RoundTrip) (root : Path) :
    SafeAct (putContract crypto (blobPath root accountId (crypto.computeHash plaintext)) accountId plaintext me)
      (fun hash t => hash = crypto.computeHash plaintext ∧ t.fs.entries (blobPath root accountId hash) ≠ none)
      (fun _ _ => False) (putIfAbsent me root accountId plaintext) s := by
  have hp := parent_blobPath_ne root accountId (crypto.computeHash plaintext)
  refine SafeAct.bind putContract_stable (call_safe ?_)
  rintro s₁ hv hr c rfl
  refine ⟨_, s₁, rfl, hv, ⟨fun other _ => BlobRely.refl other s₁, id⟩, fun t _ hrt => ?_⟩
  split
  · rename_i hex
    rw [FileSystem.pathExists, hv.notDir, Bool.false_or, Option.isSome_iff_ne_none] at hex
    exact SafeAct.pure fun t' _ hrt' => ⟨rfl, hrt'.stored (hrt.stored hex)⟩
  · refine SafeAct.bind putContract_stable (call_safe ?_)
    intro s₂ hv₂ hr₂ nonce _
    refine ⟨_, s₂, rfl, hv₂, ⟨fun other _ => BlobRely.refl other s₂, id⟩, fun t₂ _ hrt₂ => ?_⟩
    apply SafeAct.seq putContract_stable (atomicWriteAll_safe hp (round nonce accountId plaintext))
    intro _ _ _ hP
    exact SafeAct.pure fun t' _ hrt' => ⟨rfl, hrt'.stored hP.1⟩

end Safety

/-- At rest nobody has a file open, the two paths are no directories, and what is stored reads back. -/
structure AtRest (crypto : Crypto) (path : Path) (accountId : AccountId) (plaintext : Bytes)
    (s : BlobState ι) : Prop where
  writer : s.writer = none
  handles : ∀ h, s.fs.handles h = none
  notDir : s.fs.dirs path = false
  tempNotDir : s.fs.dirs (tempPath path) = false
  readable : ∀ i, s.fs.entries path = some i → crypto.decrypt accountId (s.fs.contents i) = .ok plaintext

theorem AtRest.sound {s : BlobState ι} (h : AtRest crypto path accountId plaintext s) :
    BlobSound crypto path accountId plaintext s where
  notDir := h.notDir
  tempNotDir := h.tempNotDir
  readable := h.readable
  closed _ _ g _ hg := by cases (h.handles g).symm.trans hg
  idle _ _ _ g _ hg := by cases (h.handles g).symm.trans hg

/-- A named blob of a sound store reads back as the plaintext. -/
private theorem getBlob_eq {s : BlobState ι} {root : Path} {hash : ContentHash}
    (hs : BlobSound crypto (blobPath root accountId hash) accountId plaintext s)
    (hP : s.fs.entries (blobPath root accountId hash) ≠ none) :
    getBlob crypto s.fs root accountId hash = .ok plaintext := by
  obtain ⟨i, hi⟩ := Option.ne_none_iff_exists'.mp hP
  simp only [getBlob, FileSystem.read, hi]
  exact hs.readable i hi

def putPost (crypto : Crypto) (root : Path) (accountId : AccountId) (plaintext : Bytes) :
    Except Error ContentHash → BlobState ι → Prop
  | .ok hash, s => hash = crypto.computeHash plaintext ∧ s.fs.entries (blobPath root accountId hash) ≠ none
  | .error _, _ => False

private theorem putSystem_sound (round : crypto.RoundTrip) (root : Path) :
    (putSystem ι crypto noOverlap root accountId plaintext).Sound
      (putContract crypto (blobPath root accountId (crypto.computeHash plaintext)) accountId plaintext)
      (fun _ => putPost crypto root accountId plaintext)
      (BlobSound crypto (blobPath root accountId (crypto.computeHash plaintext)) accountId plaintext) where
  stable _ := putContract_stable
  valid_iff _ _ := Iff.rfl
  allows _ _ _ _ h := h
  agree _ j hne _ _ _ _ hg := hg.1 j hne.symm
  root s i p _ hp := by
    subst hp
    exact Safe.weaken (putIfAbsent_safe round root) fun r t _ h => by cases r <;> exact h
  env _ _ _ h := h.elim
  crash _ _ _ h := h.elim

variable [DecidableEq ι]

/-- In every run from `s` no call fails, and a returned hash reads back as the plaintext ever after. -/
def PutSafe (crypto : Crypto) (allowed : (storageMachine ι crypto).Allowed) (root : Path) (accountId : AccountId)
    (plaintext : Bytes) (s : BlobState ι) : Prop :=
  ∀ c, (putSystem ι crypto allowed root accountId plaintext).Reaches (.idle s) c →
    (∀ i e, c.threads i ≠ some (.ret (.error e))) ∧
      ∀ i hash, c.threads i = some (.ret (.ok hash)) →
        ∀ c', (putSystem ι crypto allowed root accountId plaintext).Reaches c c' →
          getBlob crypto c'.state.fs root accountId hash = .ok plaintext

/-- Stores are safe while no call creates the temporary file that another has not renamed yet. -/
theorem putIfAbsent_concurrent (round : crypto.RoundTrip) (root : Path) {s : BlobState ι}
    (rest : AtRest crypto (blobPath root accountId (crypto.computeHash plaintext)) accountId plaintext s) :
    PutSafe crypto noOverlap root accountId plaintext s := by
  intro c hc
  have sound : (putSystem ι crypto noOverlap root accountId plaintext).Sound _ _ _ := putSystem_sound round root
  have hsafe := sound.reaches (AllSafe.idle rest.sound) hc
  refine ⟨fun i e hi => hsafe.returned i putContract_stable hsafe.1 hi, fun i hash hi c' hc' => ?_⟩
  obtain ⟨rfl, hP⟩ := hsafe.returned i putContract_stable hsafe.1 hi
  apply getBlob_eq (sound.reaches hsafe hc').1
  exact sound.keeps (fun _ _ _ hg => hg.2) (fun _ _ h => h.elim) (fun _ _ h => h.elim) hsafe hc' hP

namespace TwoWriters

/-- A nonce on both sides of the plaintext; every other byte string is rejected. -/
def cipher : Crypto where
  Nonce := UInt8
  encrypt nonce _ plaintext := nonce :: (plaintext ++ [nonce])
  decrypt _ bytes :=
    match bytes with
    | nonce :: rest => if rest.getLast? = some nonce then .ok rest.dropLast else .error .decryptionFailed
    | [] => .error .decryptionFailed
  computeHash _ := ⟨.replicate 32 0⟩

theorem roundTrip : cipher.RoundTrip := by
  intro (nonce : UInt8) accountId plaintext
  change (if (plaintext ++ [nonce]).getLast? = some nonce then Except.ok (plaintext ++ [nonce]).dropLast else _) = _
  rw [List.getLast?_concat, if_pos rfl, List.dropLast_concat]

def start : BlobState Bool := ⟨.empty fun _ => false, none⟩

private theorem start_atRest (path : Path) : AtRest cipher path 1 [7] start :=
  ⟨rfl, fun _ => rfl, rfl, rfl, fun _ h => by cases h⟩

/-- Every call succeeds, every write takes all, and the two callers draw different nonces. -/
def pick (me : Bool) : (o : StorageOp Bool) → o.Choice cipher
  | .encrypt _ _ => if me then (1 : UInt8) else (2 : UInt8)
  | .write _ data => data.length + 1
  | .close _ => ()
  | .tryExists _ | .createDirAll _ | .create _ _ | .syncAll _ | .rename _ _ | .openDir _ | .syncDir _ => none

private theorem pick_noFault (me : Bool) (s : BlobState Bool) (o : StorageOp Bool) : noFault s o (pick me o) := by
  cases o with
  | encrypt | close => trivial
  | write handle data => exact Nat.succ_pos _
  | tryExists | createDirAll | create | syncAll | rename | openDir | syncDir => rfl

def bothStarted : Config (storageMachine Bool cipher) Bool (Except Error ContentHash) :=
  ((Config.idle start).set start true (putIfAbsent true [] 1 [7]).run).set start false
    (putIfAbsent false [] 1 [7]).run

private theorem reaches_bothStarted : (putSystem Bool cipher noFault [] 1 [7]).Reaches (.idle start) bothStarted := by
  refine .tail (.single (.start true _ ?_ rfl)) (.start false _ ?_ rfl) <;> rintro ⟨o, next, h⟩ <;> cases h

/-- The first caller is about to rename when the second creates the file again. -/
def overlap : List Bool :=
  [true, true, true, true, true, true, true, false, false, false, false, true, true, true]

def overlapped : Config (storageMachine Bool cipher) Bool (Except Error ContentHash) :=
  overlap.foldl (fun c i => c.advance (pick i) i) bothStarted

set_option maxRecDepth 4000 in
private theorem overlapped_result : overlapped.result? true = some (.ok ⟨.replicate 32 0⟩) := rfl

set_option maxRecDepth 4000 in
private theorem overlapped_blob : getBlob cipher overlapped.state.fs [] 1 ⟨.replicate 32 0⟩ =
    .error .decryptionFailed := rfl

end TwoWriters

/-- With two writers free to overlap, a hash is returned whose blob is an empty file. -/
theorem putIfAbsent_overlap_torn :
    ¬ PutSafe TwoWriters.cipher noFault [] 1 [7] TwoWriters.start := by
  intro h
  have hr := TwoWriters.reaches_bothStarted.trans
    (System.reaches_schedule TwoWriters.pick_noFault TwoWriters.bothStarted TwoWriters.overlap)
  have hget := (h TwoWriters.overlapped hr).2 true _ (Config.result?_eq_some.mp TwoWriters.overlapped_result) _ .refl
  rw [TwoWriters.overlapped_blob] at hget
  cases hget

/-- Over the empty store non-overlapping writers are safe. -/
theorem putIfAbsent_concurrent_twoWriters : PutSafe TwoWriters.cipher noOverlap [] 1 [7] TwoWriters.start :=
  putIfAbsent_concurrent TwoWriters.roundTrip [] (TwoWriters.start_atRest _)

end MailKeep
