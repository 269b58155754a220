import MailKeep.Files.FileSystem
import Mathlib.Data.List.Infix

/-! A file system with what of it a power loss spares: the bytes a file had at its last fsync, and the
entries a directory had at its last fsync. Open files write behind the caller's back. -/
namespace Files

/-- `syncedDirs p` tells whether the entry of the directory `p` has been synced, in the directory above it, and
`unreported h` what the last write to the open file `h` has failed with since it was answered. -/
structure Disk (Byte : Type) where
  fs : FileSystem Byte
  syncedDirs : Path → Bool
  syncedEntries : Path → Option Nat
  syncedContents : Nat → List Byte
  unreported : Nat → Option IoError

/-- What comes of a write once it has been answered; a refused one has not begun. -/
inductive WriteOutcome
  | done
  | failed (written : Nat) (e : IoError)
  | refused (e : IoError)

/-- What an open file takes of a write. -/
def maxBufSize : Nat := 2 * 1024 * 1024

def enotdir : IoError := ⟨.other, "Not a directory (os error 20)"⟩

namespace Disk
variable {Byte : Type}

/-- Makes the missing directories on the way down to `p`, as far as to this depth. -/
def makeDirs (d : Disk Byte) (p : Path) (depth : Nat) : Disk Byte :=
  { d with fs := { d.fs with dirs := fun q => d.fs.dirs q || decide (q ≠ [] ∧ q <+: p ∧ q.length ≤ depth) } }

/-- `mkdir -p`, which may be cut short at some depth. -/
def createDirAll (d : Disk Byte) (p : Path) : Option (Nat × IoError) → Except IoError Unit × Disk Byte
  | some (depth, e) => (.error e, d.makeDirs p depth)
  | none =>
    if p.inits.any fun q => (d.fs.entries q).isSome then (.error enotdir, d)
    else (.ok (), d.makeDirs p p.length)

def create (d : Disk Byte) (p : Path) : Except IoError Nat × Disk Byte :=
  ((d.fs.create p).1,
    { d with fs := (d.fs.create p).2, unreported := Function.update d.unreported d.fs.nextHandle none })

/-- A write is answered before it is done. What it fails with then is the answer to the next write to the file, and to
nothing else: `syncFile` and `close` wait for its end, and say nothing of it. -/
def writeBehind [Inhabited Byte] (d : Disk Byte) (handle : Nat) (data : List Byte) (outcome : WriteOutcome) :
    Except IoError Nat × Disk Byte :=
  match d.unreported handle, outcome with
  | some e, _ => (.error e, { d with unreported := Function.update d.unreported handle none })
  | none, .refused e => (.error e, d)
  | none, .done =>
    ((d.fs.write handle (data.take maxBufSize)).1, { d with fs := (d.fs.write handle (data.take maxBufSize)).2 })
  | none, .failed n e =>
    let part := (data.take maxBufSize).dropLast.take n
    ((d.fs.write handle part).1.map fun _ => (data.take maxBufSize).length,
      { d with fs := (d.fs.write handle part).2, unreported := Function.update d.unreported handle (some e) })

/-- `fsync` of an open file. -/
def syncFile (d : Disk Byte) (handle : Nat) : Except IoError Unit × Disk Byte :=
  match d.fs.handles handle with
  | none => (.error ebadf, d)
  | some (i, _) => (.ok (), { d with syncedContents := Function.update d.syncedContents i (d.fs.contents i) })

/-- `fsync` of a directory. -/
def syncDir (d : Disk Byte) (dir : Path) : Disk Byte :=
  { d with
    syncedDirs := fun q => if q ≠ [] ∧ parent q = dir then d.fs.dirs q else d.syncedDirs q
    syncedEntries := fun q => if q ≠ [] ∧ parent q = dir then d.fs.entries q else d.syncedEntries q }

/-- The process dies: its open files are closed, nothing else happens. -/
def crash (d : Disk Byte) : Disk Byte :=
  { d with
    fs := { d.fs with handles := fun _ => none, handle_lt := fun h => by cases h }
    unreported := fun _ => none }

/-- The file holds what was handed over to it, or only a part, and then the write that failed is unreported. -/
def Behind (d : Disk Byte) (handle : Nat) (held handed : List Byte) : Prop :=
  match d.unreported handle with
  | none => held = handed
  | some _ => held <+: handed ∧ held ≠ handed

/-- The directory can be reached after a power loss. -/
def standing (d : Disk Byte) (dir : Path) : Bool := dir.inits.all fun q => q.isEmpty || d.syncedDirs q

/-- What a read finds after a power loss. -/
def readAfterPowerLoss (d : Disk Byte) (p : Path) : Except IoError (List Byte) :=
  if d.standing (parent p) then
    match d.syncedEntries p with
    | some i => .ok (d.syncedContents i)
    | none => .error (if d.standing p then eisdir else enoent)
  else .error enoent

theorem standing_iff {d : Disk Byte} {dir : Path} : d.standing dir = true ↔ ∀ q, q <+: dir →
    q ≠ [] → d.syncedDirs q = true := by
  simp only [standing, List.all_eq_true, List.mem_inits, Bool.or_eq_true, List.isEmpty_iff]
  exact ⟨fun h q hq hne => (h q hq).resolve_left hne, fun h q hq => or_iff_not_imp_left.mpr (h q hq)⟩

theorem standing_congr {d d' : Disk Byte} {dir : Path} (same : ∀ q, q.length ≤ dir.length → d'.syncedDirs q = d.syncedDirs q) :
    d'.standing dir = d.standing dir := by
  rw [Bool.eq_iff_iff, standing_iff, standing_iff]
  exact forall₂_congr fun q hq => by rw [same q hq.length_le]

/-- A read succeeds after a power loss where the file's entry and all directories above it were synced. -/
theorem readAfterPowerLoss_ok {d : Disk Byte} {p : Path} {bytes : List Byte} :
    d.readAfterPowerLoss p = .ok bytes ↔
      d.standing (parent p) = true ∧ ∃ i, d.syncedEntries p = some i ∧ d.syncedContents i = bytes := by
  unfold readAfterPowerLoss
  cases d.standing (parent p) with
  | false => simp
  | true => cases d.syncedEntries p with
    | none => simp
    | some i => simp

theorem Behind.eq {d : Disk Byte} {handle : Nat} {held handed : List Byte} (h : d.Behind handle held handed)
    (told : d.unreported handle = none) : held = handed := by
  unfold Behind at h
  rwa [told] at h

theorem Behind.torn {d : Disk Byte} {handle : Nat} {held handed : List Byte} (h : d.Behind handle held handed)
    (hidden : d.unreported handle ≠ none) : held <+: handed ∧ held ≠ handed := by
  obtain ⟨e, failed⟩ := Option.ne_none_iff_exists'.mp hidden
  unfold Behind at h
  rwa [failed] at h

/-- A write of something goes through where nothing was unreported, and the file has then been handed what it took. -/
theorem writeBehind_ok [Inhabited Byte] {d : Disk Byte} {handle i : Nat} {data held handed : List Byte}
    {outcome : WriteOutcome} {n : Nat} (opened : d.fs.handles handle = some (i, held.length)) (some_left : data ≠ [])
    (behind : d.Behind handle held handed) (ok : (d.writeBehind handle data outcome).1 = .ok n) :
    n = (data.take maxBufSize).length ∧ ∃ part unreported,
      (d.writeBehind handle data outcome).2 = { d with fs := (d.fs.write handle part).2, unreported := unreported } ∧
      (d.writeBehind handle data outcome).2.Behind handle (held ++ part) (handed ++ data.take maxBufSize) := by
  cases failed : d.unreported handle with
  | some e => simp [writeBehind, failed] at ok
  | none =>
    obtain rfl := behind.eq failed
    have answer (part : List Byte) := (FileSystem.write_some opened part).1
    cases outcome with
    | refused e => simp [writeBehind, failed] at ok
    | done =>
      simp only [writeBehind, failed, answer, Except.ok.injEq] at ok
      refine ⟨ok.symm, data.take maxBufSize, d.unreported, by simp only [writeBehind, failed], ?_⟩
      simp only [writeBehind, failed, Behind]
    | failed written e =>
      simp only [writeBehind, failed, answer, Except.map, Except.ok.injEq] at ok
      refine ⟨ok.symm, (data.take maxBufSize).dropLast.take written, Function.update d.unreported handle (some e),
        by simp only [writeBehind, failed], ?_⟩
      simp only [writeBehind, failed, Behind, Function.update_self]
      have part : (data.take maxBufSize).dropLast.take written <+: data.take maxBufSize :=
        (List.take_prefix _ _).trans (List.dropLast_prefix _)
      refine ⟨(List.prefix_append_right_inj held).mpr part, fun same => ?_⟩
      have lengths := congrArg List.length (List.append_cancel_left same)
      have taken : 0 < (data.take maxBufSize).length := by
        rw [List.length_take]
        exact Nat.lt_min.mpr ⟨by decide, List.length_pos_iff.mpr some_left⟩
      have short := List.length_take_le' written (data.take maxBufSize).dropLast
      rw [List.length_dropLast] at short
      omega

/-- A write that is refused changes no file. -/
theorem writeBehind_error [Inhabited Byte] {d : Disk Byte} {handle i off : Nat} {data : List Byte} {outcome : WriteOutcome}
    {e : IoError} (opened : d.fs.handles handle = some (i, off)) (error : (d.writeBehind handle data outcome).1 = .error e) :
    ∃ unreported, (d.writeBehind handle data outcome).2 = { d with unreported := unreported } := by
  have answer (part : List Byte) := (FileSystem.write_some opened part).1
  cases failed : d.unreported handle with
  | some e => exact ⟨Function.update d.unreported handle none, by simp only [writeBehind, failed]⟩
  | none => cases outcome with
    | refused e => exact ⟨d.unreported, by simp only [writeBehind, failed]⟩
    | done => simp [writeBehind, failed, answer] at error
    | failed written e => simp [writeBehind, failed, answer, Except.map] at error

theorem syncFile_some {d : Disk Byte} {handle i off : Nat} (h : d.fs.handles handle = some (i, off)) :
    d.syncFile handle =
      (.ok (), { d with syncedContents := Function.update d.syncedContents i (d.fs.contents i) }) := by
  unfold syncFile
  rw [h]

theorem syncDir_entry {d : Disk Byte} {dir q : Path} (ne : q ≠ []) (child : parent q = dir) :
    (d.syncDir dir).syncedEntries q = d.fs.entries q := if_pos ⟨ne, child⟩

/-- Only the entries of the directory itself are synced. -/
theorem syncDir_dirs {d : Disk Byte} {dir q : Path} (short : q.length ≤ dir.length) :
    (d.syncDir dir).syncedDirs q = d.syncedDirs q := by
  apply if_neg
  rintro ⟨ne, rfl⟩
  have : 0 < q.length := List.length_pos_iff.mpr ne
  rw [parent, List.length_dropLast] at short
  omega

end Disk
end Files
