import Mathlib.Algebra.GroupWithZero.Nat
import Mathlib.Data.Fin.Basic
import Mathlib.Data.Nat.Notation

/-! Values the core crate passes around: machine integers, identifiers, errors. -/
namespace MailKeep

abbrev Bytes := List UInt8

abbrev U32 := Fin 4294967296

instance U32.neZero : NeZero 4294967296 := ⟨by decide⟩

namespace U32

def maxValue : U32 := ⟨4294967295, by decide⟩

def saturatingAdd (a b : U32) : U32 := ⟨min (a.val + b.val) 4294967295, by omega⟩

def saturatingSub (a b : U32) : U32 := ⟨a.val - b.val, by omega⟩

@[simp] theorem val_saturatingAdd (a b : U32) :
    (a.saturatingAdd b).val = min (a.val + b.val) 4294967295 := rfl

@[simp] theorem val_saturatingSub (a b : U32) : (a.saturatingSub b).val = a.val - b.val := rfl

@[simp] theorem val_maxValue : maxValue.val = 4294967295 := rfl

theorem le_maxValue (a : U32) : a ≤ maxValue := by
  rw [Fin.le_def, val_maxValue]
  omega

end U32

/-- `usize` of a 64-bit target. -/
def usizeMax : Nat := 18446744073709551615

def Usize.saturatingAdd (a b : Nat) : Nat := min (a + b) usizeMax

def Usize.saturatingMul (a b : Nat) : Nat := min (a * b) usizeMax

/-- Row identifiers come from tokens of at most `i64::MAX`, which the signed columns hold exactly. -/
abbrev UserId := Nat
abbrev AccountId := Nat
abbrev FolderId := Nat
abbrev MessageId := Nat
abbrev JobId := Nat

/-- A point in time, in nanoseconds from the epoch. -/
abbrev DateTimeUtc := Int

/-- Whole seconds from the epoch, rounded down. -/
def DateTimeUtc.timestamp (t : DateTimeUtc) : Int := t / 1000000000

/-- A SHA-256 digest: the identity of a stored blob and of a message. -/
structure ContentHash where
  bytes : Vector UInt8 32
deriving DecidableEq

namespace ContentHash

/-- `{:02x}`. -/
def hexByte (b : UInt8) : String :=
  let digits := Nat.toDigits 16 b.toNat
  String.ofList (if digits.length < 2 then '0' :: digits else digits)

def asHex (hash : ContentHash) : String := String.join (hash.bytes.toList.map hexByte)

def shardDirs (hash : ContentHash) : String × String := (hexByte hash.bytes[0], hexByte hash.bytes[1])

end ContentHash

inductive RepositoryError
  | constraint (message : String)
  | conflict
  | notFound
  | readOnly
  | database (message : String)
  | queryCanceled
  | connection (message : String)
  | busy (message : String)
deriving DecidableEq

inductive Error
  | invalidId (id : Nat)
  | invalidPageSize (size : Nat)
  | validation (message : String)
  | invalidTransactionType
  | invalidToken (token : String)
  | infrastructure (message : String)
  | unimplemented (method : String)
  | storageUnavailable (message : String)
  | blobNotFound (accountId : AccountId) (hash : String)
  | folderNotFound (path : String)
  | frontendError (message : String)
  | cryptoError (message : String)
  | decryptionFailed
  | credentialsDeserialize (message : String)
  | repositoryError (e : RepositoryError)
deriving DecidableEq

/-- The texts shown to a user and kept on a failed job. -/
def RepositoryError.text : RepositoryError → String
  | constraint message => "Constraint Error - " ++ message
  | conflict => "Conflict Error"
  | notFound => "Not found"
  | readOnly => "Read-only Transaction"
  | database message => "Database error: " ++ message
  | queryCanceled => "Query canceled"
  | connection message => "Connection Error: " ++ message
  | busy message => "Database busy: " ++ message

def Error.text : Error → String
  | invalidId id => "Invalid ID: " ++ toString id
  | invalidPageSize size => "Invalid page size: " ++ toString size
  | validation message => "Validation error: " ++ message
  | invalidTransactionType => "Invalid transaction type"
  | invalidToken token => "Invalid token: " ++ token
  | infrastructure message => "Infrastructure error: " ++ message
  | unimplemented method => "Not implemented: " ++ method
  | storageUnavailable message => "Storage unavailable: " ++ message
  | blobNotFound accountId _ => "Blob not found for account " ++ toString accountId
  | folderNotFound path => "mailbox not found on server: " ++ path
  | frontendError message => "Frontend error: " ++ message
  | cryptoError message => "Crypto error: " ++ message
  | decryptionFailed => "Decryption failed"
  | credentialsDeserialize message => "failed to deserialize credentials after decrypt: " ++ message
  | repositoryError e => e.text

/-- Errors of an outage the server recovers from without a restart. -/
def Error.isTransient : Error → Bool
  | .repositoryError (.connection _) => true
  | .repositoryError (.busy _) => true
  | .storageUnavailable _ => true
  | _ => false

end MailKeep
