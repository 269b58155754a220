import MailKeep.Core.Types
import MailKeep.Files.FileSystem
import MailKeep.Program.Safe

/-! The encrypted blob store as a program over file-system calls. -/
namespace MailKeep
open Files Program

/-- What the store takes from the AEAD cipher and the hash function. -/
structure Crypto where
  Nonce : Type
  encrypt : Nonce → AccountId → Bytes → Bytes
  decrypt : AccountId → Bytes → Except Error Bytes
  computeHash : Bytes → ContentHash

/-- Decryption undoes encryption, whatever the nonce. -/
def Crypto.RoundTrip (crypto : Crypto) : Prop :=
  ∀ nonce accountId plaintext, crypto.decrypt accountId (crypto.encrypt nonce accountId plaintext) = .ok plaintext

/-- The calls of the store; `create` names the caller, which only the log of writers reads. -/
inductive StorageOp (ι : Type)
  | tryExists (path : Path)
  | encrypt (accountId : AccountId) (plaintext : Bytes)
  | createDirAll (dir : Path)
  | create (caller : ι) (path : Path)
  | write (handle : Nat) (data : Bytes)
  | syncAll (handle : Nat)
  | close (handle : Nat)
  | rename (src dst : Path)
  | openDir (dir : Path)
  | syncDir (dir : Path)

/-- `writer` is the caller that has created a temporary file and not yet renamed it. -/
structure BlobState (ι : Type) where
  fs : FileSystem UInt8
  writer : Option ι

variable {ι : Type}

abbrev StorageOp.Value : StorageOp ι → Type
  | tryExists _ => Bool
  | encrypt _ _ => Bytes
  | create _ _ => Nat
  | write _ _ => Nat
  | _ => Unit

/-- The environment picks the nonce, how much a write takes, and whether a call fails; no write fails here. -/
abbrev StorageOp.Choice (crypto : Crypto) : StorageOp ι → Type
  | encrypt _ _ => crypto.Nonce
  | write _ _ => Nat
  | close _ => Unit
  | _ => Option IoError

def storageExec (crypto : Crypto) :
    (o : StorageOp ι) → o.Choice crypto → BlobState ι → Except IoError o.Value × BlobState ι
  | .encrypt accountId plaintext, nonce, s => (.ok (crypto.encrypt nonce accountId plaintext), s)
  | .write handle data, n, s =>
    let (reply, fs) := s.fs.write handle (data.take n)
    (reply, { s with fs := fs })
  | .tryExists path, none, s => (.ok (s.fs.pathExists path), s)
  | .createDirAll dir, none, s => (.ok (), { s with fs := s.fs.createDirAll dir })
  | .create caller path, none, s =>
    match s.fs.create path with
    | (.ok handle, fs) => (.ok handle, ⟨fs, some caller⟩)
    | (.error e, fs) => (.error e, { s with fs := fs })
  | .syncAll _, none, s => (.ok (), s)
  | .close handle, (), s => (.ok (), { s with fs := s.fs.close handle })
  | .rename src dst, none, s =>
    let (reply, fs) := s.fs.rename src dst
    (reply, ⟨fs, none⟩)
  | .openDir dir, none, s => (if s.fs.dirs dir then .ok () else .error enoent, s)
  | .syncDir _, none, s => (.ok (), s)
  | .tryExists _, some e, s | .createDirAll _, some e, s | .create _ _, some e, s | .syncAll _, some e, s
  | .rename _ _, some e, s | .openDir _, some e, s | .syncDir _, some e, s => (.error e, s)

def storageMachine (ι : Type) (crypto : Crypto) : Machine where
  Op := StorageOp ι
  Reply o := Except IoError o.Value
  State := BlobState ι
  Choice := StorageOp.Choice crypto
  exec := storageExec crypto

abbrev StorageAction (ι : Type) (crypto : Crypto) (α : Type) :=
  Action (storageMachine ι crypto).toSignature Error α

variable {crypto : Crypto}

/-- `map_err(|e| Error::Infrastructure(e.to_string()))`. -/
def orInfrastructure {α : Type} : Except IoError α → Except Error α
  | .ok a => .ok a
  | .error e => .error (.infrastructure e.text)

def call (o : StorageOp ι) : StorageAction ι crypto o.Value :=
  .mk (.call o fun reply => .ret (orInfrastructure reply))

def blobPath (root : Path) (accountId : AccountId) (hash : ContentHash) : Path :=
  root ++ [toString accountId, hash.shardDirs.1, hash.shardDirs.2, hash.asHex ++ ".bin"]

/-- `.<name>.tmp` in the directory of the path. -/
def tempPath (path : Path) : Path := parent path ++ ["." ++ path.getLastD "" ++ ".tmp"]

/-- Writes until everything is written; a write of nothing is an error. -/
def writeAll (handle : Nat) : Nat → Bytes → StorageAction ι crypto Unit
  | 0, _ => pure ()
  | fuel + 1, data =>
    if data.isEmpty then pure ()
    else do
      let n ← call (.write handle data)
      if n = 0 then throw (.infrastructure "write zero byte into writer")
      else writeAll handle fuel (data.drop n)

def atomicWriteAll (me : ι) (path : Path) (bytes : Bytes) : StorageAction ι crypto Unit := do
  call (.createDirAll (parent path))
  let f ← call (.create me (tempPath path))
  writeAll f bytes.length bytes
  call (.syncAll f)
  call (.close f)
  call (.rename (tempPath path) path)
  call (.openDir (parent path))
  call (.syncDir (parent path))

def putIfAbsent (me : ι) (root : Path) (accountId : AccountId) (plaintext : Bytes) :
    StorageAction ι crypto ContentHash := do
  let hash := crypto.computeHash plaintext
  let path := blobPath root accountId hash
  if ← call (.tryExists path) then
    return hash
  let ct ← call (.encrypt accountId plaintext)
  atomicWriteAll me path ct
  return hash

/-- What `get` returns in a state of the file system. -/
def getBlob (crypto : Crypto) (fs : FileSystem UInt8) (root : Path) (accountId : AccountId) (key : ContentHash) :
    Except Error Bytes :=
  match fs.read (blobPath root accountId key) with
  | .ok bytes => crypto.decrypt accountId bytes
  | .error ⟨.notFound, _⟩ => .error (.blobNotFound accountId key.asHex)
  | .error ⟨_, text⟩ => .error (.infrastructure text)

end MailKeep
