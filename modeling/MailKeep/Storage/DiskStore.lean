import MailKeep.Files.Durability
import MailKeep.Storage.Blob

/-! The blob store over a disk: one caller, any failure of any call, and process crashes between any two of them. -/
namespace MailKeep
open Files Program

section
variable {crypto : Crypto}

/-- A failing `createDirAll` may have made the upper directories already, a failing write may have written a part; any
other call that fails has done nothing. -/
abbrev DiskChoice (crypto : Crypto) : StorageOp Unit → Type
  | .encrypt _ _ => crypto.Nonce
  | .createDirAll _ => Option (Nat × IoError)
  | .write _ _ => WriteOutcome
  | .close _ => Unit
  | _ => Option IoError

def diskExec (crypto : Crypto) :
    (o : StorageOp Unit) → DiskChoice crypto o → Disk UInt8 → Except IoError o.Value × Disk UInt8
  | .encrypt accountId plaintext, nonce, d => (.ok (crypto.encrypt nonce accountId plaintext), d)
  | .createDirAll dir, cut, d => d.createDirAll dir cut
  | .write handle data, outcome, d => d.writeBehind handle data outcome
  | .close handle, (), d => (.ok (), { d with fs := d.fs.close handle })
  | .tryExists path, none, d => (.ok (d.fs.pathExists path), d)
  | .create _ path, none, d => d.create path
  | .syncAll handle, none, d => d.syncFile handle
  | .rename src dst, none, d => ((d.fs.rename src dst).1, { d with fs := (d.fs.rename src dst).2 })
  | .openDir dir, none, d => (if d.fs.dirs dir then .ok () else .error enoent, d)
  | .syncDir dir, none, d => (.ok (), d.syncDir dir)
  | .tryExists _, some e, d | .create _ _, some e, d | .syncAll _, some e, d | .rename _ _, some e, d
  | .openDir _, some e, d | .syncDir _, some e, d => (.error e, d)

def diskMachine (crypto : Crypto) : Machine where
  toSignature := (storageMachine Unit crypto).toSignature
  State := Disk UInt8
  Choice := DiskChoice crypto
  exec := diskExec crypto

abbrev anyOutcome (crypto : Crypto) : (diskMachine crypto).Allowed := fun _ _ _ => True

/-- Where a file is synced, each write to it that has failed was reported. -/
def failuresTold (crypto : Crypto) : (diskMachine crypto).Allowed
  | d, .syncAll handle, _ => d.unreported handle = none
  | _, _, _ => True

/-- Where a file is synced, a write to it has failed and nobody was told. -/
def failuresHidden (crypto : Crypto) : (diskMachine crypto).Allowed
  | d, .syncAll handle, _ => d.unreported handle ≠ none
  | _, _, _ => True

/-- `put_if_absent` by the one caller there is. -/
abbrev storeBlob (crypto : Crypto) (root : Path) (accountId : AccountId) (plaintext : Bytes) :
    Prog (diskMachine crypto).toSignature (Except Error ContentHash) :=
  (putIfAbsent () root accountId plaintext : StorageAction Unit crypto ContentHash).run

/-- A call for one of these contents goes on for any number of steps, to its end or not, or the process dies. -/
inductive StoreStep (allowed : (diskMachine crypto).Allowed) (root : Path) (contents : Bytes → Prop) :
    Disk UInt8 → Disk UInt8 → Prop
  | call {d d' : Disk UInt8} (accountId : AccountId) (plaintext : Bytes) (known : contents plaintext)
      (rest : Prog (diskMachine crypto).toSignature (Except Error ContentHash))
      (made : Program.Reaches allowed (storeBlob crypto root accountId plaintext, d) (rest, d')) :
      StoreStep allowed root contents d d'
  | crash {d : Disk UInt8} : StoreStep allowed root contents d d.crash

abbrev StoreReaches (allowed : (diskMachine crypto).Allowed) (root : Path) (contents : Bytes → Prop) :
    Disk UInt8 → Disk UInt8 → Prop :=
  Relation.ReflTransGen (StoreStep allowed root contents)

/-- No two of the contents in use have the same hash. -/
def Crypto.CollisionFree (crypto : Crypto) (contents : Bytes → Prop) : Prop :=
  ∀ p p', contents p → contents p' → crypto.computeHash p = crypto.computeHash p' → p = p'

def Crypto.Encrypts (crypto : Crypto) (contents : Bytes → Prop) (accountId : AccountId) (hash : ContentHash)
    (bytes : Bytes) : Prop :=
  ∃ plaintext nonce, contents plaintext ∧ crypto.computeHash plaintext = hash ∧
    bytes = crypto.encrypt nonce accountId plaintext

/-- A beginning of a ciphertext that decrypts to the plaintext is all of it. -/
def Crypto.Sealed (crypto : Crypto) : Prop :=
  ∀ nonce accountId plaintext bytes, bytes <+: crypto.encrypt nonce accountId plaintext →
    crypto.decrypt accountId bytes = .ok plaintext → bytes = crypto.encrypt nonce accountId plaintext

/-- What `get` makes of what it reads. -/
def readBlob (crypto : Crypto) (accountId : AccountId) (key : ContentHash) :
    Except IoError Bytes → Except Error Bytes
  | .ok bytes => crypto.decrypt accountId bytes
  | .error ⟨.notFound, _⟩ => .error (.blobNotFound accountId key.asHex)
  | .error ⟨_, text⟩ => .error (.infrastructure text)

theorem getBlob_eq_readBlob (fs : FileSystem UInt8) (root : Path) (accountId : AccountId) (key : ContentHash) :
    getBlob crypto fs root accountId key = readBlob crypto accountId key
      (fs.read (blobPath root accountId key)) := by
  unfold getBlob readBlob
  cases fs.read (blobPath root accountId key) with
  | ok bytes => rfl
  | error e => rcases e with ⟨_ | _, text⟩ <;> rfl

theorem readBlob_ok {accountId : AccountId} {key : ContentHash} {plaintext : Bytes} {found : Except IoError Bytes} :
    readBlob crypto accountId key found = .ok plaintext ↔
      ∃ bytes, found = .ok bytes ∧ crypto.decrypt accountId bytes = .ok plaintext := by
  rcases found with ⟨_ | _, text⟩ | bytes <;> simp [readBlob]

def getAfterPowerLoss (crypto : Crypto) (d : Disk UInt8) (root : Path) (accountId : AccountId) (key : ContentHash) :
    Except Error Bytes :=
  readBlob crypto accountId key (d.readAfterPowerLoss (blobPath root accountId key))

end

theorem ContentHash.hexByte_toList (b : UInt8) :
    (hexByte b).toList = [Nat.digitChar (b.toNat / 16), Nat.digitChar (b.toNat % 16)] := by
  unfold hexByte
  rcases Nat.lt_or_ge b.toNat 16 with small | large
  · rw [Nat.toDigits_of_lt_base small, Nat.div_eq_of_lt small, Nat.mod_eq_of_lt small]
    exact String.toList_ofList
  · have high : b.toNat / 16 < 16 := Nat.div_lt_of_lt_mul b.toNat_lt
    rw [Nat.toDigits_of_base_le (by decide) large, Nat.toDigits_of_lt_base high]
    exact String.toList_ofList

private theorem ContentHash.hexByte_inj {b c : UInt8} (h : (hexByte b).toList = (hexByte c).toList) : b = c := by
  have digit : ∀ i j : Fin 16, Nat.digitChar i = Nat.digitChar j → i = j := by decide
  have hb := b.toNat_lt
  have hc := c.toNat_lt
  rw [hexByte_toList, hexByte_toList, List.cons.injEq, List.cons.injEq] at h
  have high := digit ⟨b.toNat / 16, by omega⟩ ⟨c.toNat / 16, by omega⟩ h.1
  have low := digit ⟨b.toNat % 16, by omega⟩ ⟨c.toNat % 16, by omega⟩ h.2.1
  rw [Fin.mk.injEq] at high low
  exact UInt8.toNat_inj.mp (by omega)

private theorem ContentHash.asHex_inj {hash hash' : ContentHash} (h : hash.asHex = hash'.asHex) : hash = hash' := by
  have bytes : ∀ l l' : List UInt8, (l.map hexByte).flatMap String.toList =
      (l'.map hexByte).flatMap String.toList → l = l' := by
    intro l
    induction l with
    | nil =>
      intro l' h
      cases l' with
      | nil => rfl
      | cons c l' => simp [hexByte_toList] at h
    | cons b l ih =>
      intro l' h
      cases l' with
      | nil => simp [hexByte_toList] at h
      | cons c l' =>
        rw [List.map_cons, List.map_cons, List.flatMap_cons, List.flatMap_cons] at h
        obtain ⟨first, rest⟩ := List.append_inj h (by rw [hexByte_toList, hexByte_toList]; rfl)
        rw [hexByte_inj first, ih l' rest]
  have same := congrArg String.toList h
  rw [asHex, asHex, String.toList_join, String.toList_join] at same
  exact congrArg ContentHash.mk (Vector.toList_inj.mp (bytes _ _ same))

private theorem toString_inj {n m : Nat} (h : toString n = toString m) : n = m := by
  rw [Nat.toString_eq_ofList_toDigits, Nat.toString_eq_ofList_toDigits, String.ofList_inj] at h
  rw [← Nat.ofDigitChars_ten_toDigits (n := n), h, Nat.ofDigitChars_ten_toDigits]

theorem blobPath_inj {root : Path} {accountId accountId' : AccountId} {hash hash' : ContentHash}
    (h : blobPath root accountId hash = blobPath root accountId' hash') :
      accountId = accountId' ∧ hash = hash' := by
  have parts := List.append_cancel_left h
  simp only [List.cons.injEq, and_true] at parts
  have name := congrArg String.toList parts.2.2.2
  rw [String.toList_append, String.toList_append] at name
  exact ⟨toString_inj parts.1, ContentHash.asHex_inj (String.toList_injective (List.append_cancel_right name))⟩

/-- The one name ends in `.tmp`, the other in `.bin`. -/
theorem tempPath_ne_blobPath {root : Path} {accountId accountId' : AccountId} {hash hash' : ContentHash} :
    tempPath (blobPath root accountId hash) ≠ blobPath root accountId' hash' := by
  intro h
  have split : blobPath root accountId' hash' =
      (root ++ [toString accountId', hash'.shardDirs.1, hash'.shardDirs.2]) ++ [hash'.asHex ++ ".bin"] := by
    simp [blobPath]
  rw [tempPath, split] at h
  have name := congrArg String.toList (List.singleton_inj.mp (List.append_inj_right' h rfl))
  simp only [String.toList_append] at name
  have ends : ".tmp".toList = ".bin".toList := List.append_inj_right' name (by simp)
  simp at ends

end MailKeep
