import Mathlib.Logic.Function.Basic

/-! A file system at the level of its calls: paths name inodes, inodes hold bytes, handles
stand at an offset of an inode whether or not a path still names it. -/
namespace Files

abbrev Path := List String

/-- The directory of a path. -/
def parent (p : Path) : Path := p.dropLast

inductive IoErrorKind
  | notFound
  | other
deriving DecidableEq

structure IoError where
  kind : IoErrorKind
  text : String
deriving DecidableEq

def enoent : IoError := ⟨.notFound, "No such file or directory (os error 2)"⟩

def eisdir : IoError := ⟨.other, "Is a directory (os error 21)"⟩

def ebadf : IoError := ⟨.other, "Bad file descriptor (os error 9)"⟩

/-- No inode has two names, and counters stay above every inode and handle in use. -/
structure FileSystem (Byte : Type) where
  dirs : Path → Bool
  entries : Path → Option Nat
  contents : Nat → List Byte
  handles : Nat → Option (Nat × Nat)
  nextInode : Nat
  nextHandle : Nat
  entry_lt : ∀ {p i}, entries p = some i → i < nextInode
  entry_inj : ∀ {p q i}, entries p = some i → entries q = some i → p = q
  handle_lt : ∀ {h i off}, handles h = some (i, off) → h < nextHandle ∧ i < nextInode

namespace FileSystem
variable {Byte : Type}

/-- A file system with directories but no file. -/
def empty (dirs : Path → Bool) : FileSystem Byte where
  dirs := dirs
  entries _ := none
  contents _ := []
  handles _ := none
  nextInode := 0
  nextHandle := 0
  entry_lt h := by cases h
  entry_inj h := by cases h
  handle_lt h := by cases h

def pathExists (fs : FileSystem Byte) (p : Path) : Bool := fs.dirs p || (fs.entries p).isSome

def createDirAll (fs : FileSystem Byte) (p : Path) : FileSystem Byte :=
  { fs with dirs := Function.update fs.dirs p true }

/-- The inode a path names after it was opened with `O_CREAT`. -/
def inodeFor (fs : FileSystem Byte) (p : Path) : Nat := (fs.entries p).getD fs.nextInode

theorem inodeFor_eq {fs : FileSystem Byte} {p : Path} {i : Nat} (h : fs.entries p = some i) :
    fs.inodeFor p = i := by
  simp [inodeFor, h]

theorem inodeFor_le (fs : FileSystem Byte) (p : Path) : fs.inodeFor p ≤ fs.nextInode := by
  unfold inodeFor
  cases h : fs.entries p with
  | none => exact Nat.le_refl _
  | some i => exact Nat.le_of_lt (fs.entry_lt h)

/-- Only the path itself can already name the inode it is opened on. -/
theorem entries_inodeFor {fs : FileSystem Byte} {p q : Path} (h : fs.entries q = some (fs.inodeFor p)) : q = p := by
  unfold inodeFor at h
  cases hp : fs.entries p with
  | none =>
    rw [hp] at h
    exact absurd (fs.entry_lt h) (Nat.lt_irrefl _)
  | some i =>
    rw [hp] at h
    exact fs.entry_inj h hp

/-- `open` with `O_CREAT | O_TRUNC`: an existing file keeps its inode and loses its bytes. -/
def openTruncated (fs : FileSystem Byte) (p : Path) : FileSystem Byte where
  dirs := fs.dirs
  entries := Function.update fs.entries p (some (fs.inodeFor p))
  contents := Function.update fs.contents (fs.inodeFor p) []
  handles := Function.update fs.handles fs.nextHandle (some (fs.inodeFor p, 0))
  nextInode := fs.nextInode + 1
  nextHandle := fs.nextHandle + 1
  entry_lt := by
    intro q i h
    rw [Function.update_apply] at h
    split at h
    · cases h
      exact Nat.lt_succ_of_le (fs.inodeFor_le p)
    · exact Nat.lt_succ_of_lt (fs.entry_lt h)
  entry_inj := by
    intro q r i hq hr
    rw [Function.update_apply] at hq hr
    split at hq <;> split at hr
    · simp_all
    · cases hq
      exact absurd (entries_inodeFor hr) ‹_›
    · cases hr
      exact absurd (entries_inodeFor hq) ‹_›
    · exact fs.entry_inj hq hr
  handle_lt := by
    intro h i off hh
    rw [Function.update_apply] at hh
    split at hh
    · cases hh
      have := fs.inodeFor_le p
      omega
    · have := fs.handle_lt hh
      omega

def create (fs : FileSystem Byte) (p : Path) : Except IoError Nat × FileSystem Byte :=
  if fs.dirs (parent p) = false then (.error enoent, fs)
  else if fs.dirs p then (.error eisdir, fs)
  else (.ok fs.nextHandle, fs.openTruncated p)

/-- Overwrite from the offset on; an offset past the end leaves a gap of zeros. -/
def splice [Inhabited Byte] (old : List Byte) (off : Nat) (new : List Byte) : List Byte :=
  (old ++ List.replicate (off - old.length) default).take off ++ new ++ old.drop (off + new.length)

theorem splice_length [Inhabited Byte] (old new : List Byte) : splice old old.length new = old ++ new := by
  simp [splice]

/-- Writes at the handle's offset and moves it on. -/
def write [Inhabited Byte] (fs : FileSystem Byte) (h : Nat) (data : List Byte) :
    Except IoError Nat × FileSystem Byte :=
  match hh : fs.handles h with
  | none => (.error ebadf, fs)
  | some (i, off) =>
    (.ok data.length,
      { fs with
        contents := Function.update fs.contents i (splice (fs.contents i) off data)
        handles := Function.update fs.handles h (some (i, off + data.length))
        handle_lt := by
          intro g j o hg
          rw [Function.update_apply] at hg
          split at hg
          · rename_i e
            cases hg
            exact e ▸ fs.handle_lt hh
          · exact fs.handle_lt hg })

def close (fs : FileSystem Byte) (h : Nat) : FileSystem Byte :=
  { fs with
    handles := Function.update fs.handles h none
    handle_lt := by
      intro g j o hg
      rw [Function.update_apply] at hg
      split at hg
      · cases hg
      · exact fs.handle_lt hg }

/-- The target's old inode, if any, loses its name. -/
def rename (fs : FileSystem Byte) (src dst : Path) : Except IoError Unit × FileSystem Byte :=
  if src = dst then (if (fs.entries src).isSome then .ok () else .error enoent, fs)
  else match hs : fs.entries src with
  | none => (.error enoent, fs)
  | some i =>
    (.ok (),
      { fs with
        entries := Function.update (Function.update fs.entries dst (some i)) src none
        entry_lt := by
          intro q j h
          rw [Function.update_apply, Function.update_apply] at h
          split at h
          · cases h
          · split at h
            · cases h
              exact fs.entry_lt hs
            · exact fs.entry_lt h
        entry_inj := by
          intro q r j hq hr
          rw [Function.update_apply, Function.update_apply] at hq hr
          split at hq <;> split at hr <;> try contradiction
          split at hq <;> split at hr
          · simp_all
          · cases hq
            exact absurd (fs.entry_inj hr hs) ‹_›
          · cases hr
            exact absurd (fs.entry_inj hq hs) ‹_›
          · exact fs.entry_inj hq hr })

def read (fs : FileSystem Byte) (p : Path) : Except IoError (List Byte) :=
  match fs.entries p with
  | none => .error (if fs.dirs p then eisdir else enoent)
  | some i => .ok (fs.contents i)

theorem create_ok {fs : FileSystem Byte} {p : Path} (hd : fs.dirs (parent p) = true) (hp : fs.dirs p = false) :
    fs.create p = (.ok fs.nextHandle, fs.openTruncated p) := by
  simp [create, hd, hp]

theorem create_cases (fs : FileSystem Byte) (p : Path) :
    (∃ e, fs.create p = (.error e, fs)) ∨ fs.create p = (.ok fs.nextHandle, fs.openTruncated p) := by
  unfold create
  split
  · exact .inl ⟨_, rfl⟩
  · split
    · exact .inl ⟨_, rfl⟩
    · exact .inr rfl

theorem write_some [Inhabited Byte] {fs : FileSystem Byte} {h i off : Nat} (hh : fs.handles h = some (i, off))
    (data : List Byte) :
    (fs.write h data).1 = .ok data.length ∧ (fs.write h data).2.entries = fs.entries ∧
      (fs.write h data).2.dirs = fs.dirs ∧
      (fs.write h data).2.contents = Function.update fs.contents i (splice (fs.contents i) off data) ∧
      (fs.write h data).2.handles = Function.update fs.handles h (some (i, off + data.length)) := by
  unfold write
  split
  · simp_all
  · rename_i hh'
    rw [hh] at hh'
    cases hh'
    exact ⟨rfl, rfl, rfl, rfl, rfl⟩

theorem rename_some {fs : FileSystem Byte} {src dst : Path} {i : Nat} (hne : src ≠ dst)
    (hs : fs.entries src = some i) :
    (fs.rename src dst).1 = .ok () ∧ (fs.rename src dst).2.dirs = fs.dirs ∧
      (fs.rename src dst).2.entries = Function.update (Function.update fs.entries dst (some i)) src none ∧
      (fs.rename src dst).2.contents = fs.contents ∧ (fs.rename src dst).2.handles = fs.handles := by
  unfold rename
  rw [if_neg hne]
  split
  · simp_all
  · rename_i hs'
    rw [hs] at hs'
    cases hs'
    exact ⟨rfl, rfl, rfl, rfl, rfl⟩

end FileSystem
end Files
