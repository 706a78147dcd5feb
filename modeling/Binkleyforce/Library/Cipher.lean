import Mathlib.Data.List.Basic

/-!
# Stream ciphers that feed on the plain text

Every byte is combined with a byte of the keys, and the plain byte changes the keys. Both
ends keep in step because both know the plain text. Streams may be cut into pieces
anywhere, at both ends differently.
-/

namespace Binkleyforce.Library

/-- The byte the keys yield, and what a plain byte makes of them. -/
structure FeedbackCipher (κ : Type) where
  mask : κ → UInt8
  update : κ → UInt8 → κ

namespace FeedbackCipher

variable {κ : Type} (cipher : FeedbackCipher κ)

/-- Encrypt a stream. -/
def encrypt : κ → List UInt8 → κ × List UInt8
  | keys, [] => (keys, [])
  | keys, char :: rest =>
    let (final, text) := encrypt (cipher.update keys char) rest
    (final, (char ^^^ cipher.mask keys) :: text)

/-- Decrypt a stream. -/
def decrypt : κ → List UInt8 → κ × List UInt8
  | keys, [] => (keys, [])
  | keys, char :: rest =>
    let plain := char ^^^ cipher.mask keys
    let (final, text) := decrypt (cipher.update keys plain) rest
    (final, plain :: text)

/-- Encrypt a stream piece by piece. -/
def encryptPieces : κ → List (List UInt8) → κ × List (List UInt8)
  | keys, [] => (keys, [])
  | keys, piece :: rest =>
    let (between, text) := cipher.encrypt keys piece
    let (final, texts) := encryptPieces between rest
    (final, text :: texts)

/-- Decrypt a stream piece by piece. -/
def decryptPieces : κ → List (List UInt8) → κ × List (List UInt8)
  | keys, [] => (keys, [])
  | keys, piece :: rest =>
    let (between, text) := cipher.decrypt keys piece
    let (final, texts) := decryptPieces between rest
    (final, text :: texts)

/-- Decryption gives back what was encrypted and leaves the same keys. -/
theorem decrypt_encrypt (keys : κ) (text : List UInt8) :
    cipher.decrypt keys (cipher.encrypt keys text).2 = ((cipher.encrypt keys text).1, text) := by
  induction text generalizing keys with
  | nil => rfl
  | cons char rest inductionHypothesis =>
    simp only [encrypt, decrypt, UInt8.xor_assoc, UInt8.xor_self, UInt8.xor_zero,
      inductionHypothesis]

/-- Encryption goes on where it stopped. -/
theorem encrypt_append (keys : κ) (first second : List UInt8) :
    cipher.encrypt keys (first ++ second) =
      ((cipher.encrypt (cipher.encrypt keys first).1 second).1,
        (cipher.encrypt keys first).2 ++ (cipher.encrypt (cipher.encrypt keys first).1 second).2) := by
  induction first generalizing keys with
  | nil => rfl
  | cons char first inductionHypothesis =>
    simp only [List.cons_append, encrypt, inductionHypothesis]

/-- Decryption goes on where it stopped. -/
theorem decrypt_append (keys : κ) (first second : List UInt8) :
    cipher.decrypt keys (first ++ second) =
      ((cipher.decrypt (cipher.decrypt keys first).1 second).1,
        (cipher.decrypt keys first).2 ++ (cipher.decrypt (cipher.decrypt keys first).1 second).2) := by
  induction first generalizing keys with
  | nil => rfl
  | cons char first inductionHypothesis =>
    simp only [List.cons_append, decrypt, inductionHypothesis]

/-- The pieces of an encrypted stream make the encrypted stream. -/
theorem encryptPieces_flatten (keys : κ) (pieces : List (List UInt8)) :
    cipher.encrypt keys pieces.flatten =
      ((cipher.encryptPieces keys pieces).1, (cipher.encryptPieces keys pieces).2.flatten) := by
  induction pieces generalizing keys with
  | nil => rfl
  | cons piece rest inductionHypothesis =>
    simp only [List.flatten_cons, encrypt_append, encryptPieces, inductionHypothesis]

/-- The pieces of a decrypted stream make the decrypted stream. -/
theorem decryptPieces_flatten (keys : κ) (pieces : List (List UInt8)) :
    cipher.decrypt keys pieces.flatten =
      ((cipher.decryptPieces keys pieces).1, (cipher.decryptPieces keys pieces).2.flatten) := by
  induction pieces generalizing keys with
  | nil => rfl
  | cons piece rest inductionHypothesis =>
    simp only [List.flatten_cons, decrypt_append, decryptPieces, inductionHypothesis]

/-- However both ends cut the stream, the plain text arrives and the keys agree. -/
theorem decryptPieces_encryptPieces (keys : κ) (pieces arrived : List (List UInt8))
    (same : arrived.flatten = (cipher.encryptPieces keys pieces).2.flatten) :
    (cipher.decryptPieces keys arrived).2.flatten = pieces.flatten ∧
      (cipher.decryptPieces keys arrived).1 = (cipher.encryptPieces keys pieces).1 := by
  have encrypted := cipher.encryptPieces_flatten keys pieces
  have decrypted := cipher.decryptPieces_flatten keys arrived
  have text : arrived.flatten = (cipher.encrypt keys pieces.flatten).2 := by
    rw [encrypted, same]
  rw [text, decrypt_encrypt, Prod.mk.injEq] at decrypted
  constructor
  · exact decrypted.2.symm
  · rw [← decrypted.1, encrypted]

section Simulation

variable {ν : Type} (other : FeedbackCipher ν) (related : κ → ν → Prop)

/-- Two ciphers whose related keys yield the same bytes, and stay related by every plain
byte, encrypt alike. -/
theorem encrypt_related
    (masks : ∀ keys others, related keys others → cipher.mask keys = other.mask others)
    (updates : ∀ keys others char, related keys others →
      related (cipher.update keys char) (other.update others char))
    (keys : κ) (others : ν) (initial : related keys others) (text : List UInt8) :
    (cipher.encrypt keys text).2 = (other.encrypt others text).2 ∧
      related (cipher.encrypt keys text).1 (other.encrypt others text).1 := by
  induction text generalizing keys others with
  | nil => exact ⟨rfl, initial⟩
  | cons char rest inductionHypothesis =>
    obtain ⟨texts, final⟩ := inductionHypothesis _ _ (updates keys others char initial)
    simp only [encrypt, masks keys others initial, texts]
    exact ⟨trivial, final⟩

/-- They decrypt alike, too. -/
theorem decrypt_related
    (masks : ∀ keys others, related keys others → cipher.mask keys = other.mask others)
    (updates : ∀ keys others char, related keys others →
      related (cipher.update keys char) (other.update others char))
    (keys : κ) (others : ν) (initial : related keys others) (text : List UInt8) :
    (cipher.decrypt keys text).2 = (other.decrypt others text).2 ∧
      related (cipher.decrypt keys text).1 (other.decrypt others text).1 := by
  induction text generalizing keys others with
  | nil => exact ⟨rfl, initial⟩
  | cons char rest inductionHypothesis =>
    simp only [decrypt, masks keys others initial]
    obtain ⟨texts, final⟩ := inductionHypothesis _ _
      (updates keys others (char ^^^ other.mask others) initial)
    rw [texts]
    exact ⟨rfl, final⟩

end Simulation

end FeedbackCipher

end Binkleyforce.Library
