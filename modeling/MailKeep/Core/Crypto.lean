import MailKeep.Core.Types

/-! The symmetric encryption layer: each ciphertext is bound to the account that owns it. -/
namespace MailKeep

structure Aead where
  encrypt : (nonce aad msg : Bytes) → Bytes
  decrypt : (nonce aad ct : Bytes) → Option Bytes

/-- What was encrypted decrypts under the same nonce and the same associated data. -/
def Aead.Lawful (aead : Aead) : Prop :=
  ∀ nonce aad msg, nonce.length = 12 → aead.decrypt nonce aad (aead.encrypt nonce aad msg) = some msg

namespace Ciphertext

def fromParts (nonce ctAndTag : Bytes) : Bytes := nonce ++ ctAndTag

def nonce (raw : Bytes) : Option Bytes := if raw.length < 12 then none else some (raw.take 12)

def ciphertextAndTag (raw : Bytes) : Bytes := if raw.length < 12 then [] else raw.drop 12

variable {n ctAndTag : Bytes}

theorem nonce_fromParts (len : n.length = 12) : nonce (fromParts n ctAndTag) = some n := by
  have long : ¬ (n ++ ctAndTag).length < 12 := by
    rw [List.length_append]
    omega
  unfold nonce fromParts
  rw [if_neg long, ← len, List.take_left]

private theorem ciphertextAndTag_fromParts (len : n.length = 12) : ciphertextAndTag
    (fromParts n ctAndTag) = ctAndTag := by
  have long : ¬ (n ++ ctAndTag).length < 12 := by
    rw [List.length_append]
    omega
  unfold ciphertextAndTag fromParts
  rw [if_neg long, ← len, List.drop_left]

end Ciphertext

/-- `u64::to_be_bytes`. -/
def toBeBytes (n : Nat) : Bytes := (List.range 8).map fun i => UInt8.ofNat (n / 256 ^ (7 - i))

namespace CipherService

def encrypt (aead : Aead) (nonce : Bytes) (accountId : AccountId) (plaintext : Bytes) : Bytes :=
  Ciphertext.fromParts nonce (aead.encrypt nonce (toBeBytes accountId) plaintext)

def decrypt (aead : Aead) (accountId : AccountId) (ct : Bytes) : Except Error Bytes :=
  match Ciphertext.nonce ct with
  | none => .error .decryptionFailed
  | some nonce =>
    match aead.decrypt nonce (toBeBytes accountId) (Ciphertext.ciphertextAndTag ct) with
    | none => .error .decryptionFailed
    | some plaintext => .ok plaintext

variable {aead : Aead} {nonce nonce' plaintext plaintext' : Bytes} {accountId : AccountId}

theorem decrypt_encrypt (lawful : aead.Lawful) (len : nonce.length = 12) :
    decrypt aead accountId (encrypt aead nonce accountId plaintext) = .ok plaintext := by
  unfold decrypt encrypt
  rw [Ciphertext.nonce_fromParts len]
  dsimp only
  rw [Ciphertext.ciphertextAndTag_fromParts len, lawful nonce _ _ len]

/-- A ciphertext tells its nonce and, to who has the key, its plaintext. -/
theorem encrypt_inj (lawful : aead.Lawful) (len : nonce.length = 12) (len' : nonce'.length = 12)
    (same : encrypt aead nonce accountId plaintext = encrypt aead nonce' accountId plaintext') :
    nonce = nonce' ∧ plaintext = plaintext' := by
  have nonces := congrArg Ciphertext.nonce same
  unfold encrypt at nonces
  rw [Ciphertext.nonce_fromParts len, Ciphertext.nonce_fromParts len'] at nonces
  have opened := congrArg (decrypt aead accountId) same
  rw [decrypt_encrypt lawful len, decrypt_encrypt lawful len'] at opened
  exact ⟨Option.some.inj nonces, Except.ok.inj opened⟩

def reencrypt (aead aead' : Aead) (accountId : AccountId) (ct : Bytes) : Bytes :=
  match Ciphertext.nonce ct, decrypt aead accountId ct with
  | some nonce, .ok plaintext => encrypt aead' nonce accountId plaintext
  | _, _ => ct

theorem reencrypt_encrypt (lawful : aead.Lawful) (aead' : Aead) (len : nonce.length = 12) :
    reencrypt aead aead' accountId (encrypt aead nonce accountId plaintext) =
      encrypt aead' nonce accountId plaintext := by
  have read : Ciphertext.nonce (encrypt aead nonce accountId plaintext) = some nonce := Ciphertext.nonce_fromParts len
  unfold reencrypt
  rw [read, decrypt_encrypt lawful len]

end CipherService
end MailKeep
