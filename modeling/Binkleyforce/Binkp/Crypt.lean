import Binkleyforce.Library.Cipher
import Binkleyforce.Util.Crc

/-!
# The stream cipher of BinkP

The traditional PKZIP cipher, with its three keys in `unsigned long` variables of
64 bits. Every byte that passes changes the keys, so each direction of a session
has keys of its own.
-/

namespace Binkleyforce

open Library

/-- The keys of one direction. -/
structure CryptKeys where
  key0 : UInt64 := 0
  key1 : UInt64 := 0
  key2 : UInt64 := 0
  deriving DecidableEq, Repr

/-- `CRC32`; the table is indexed by the low byte of both arguments. -/
def crc32 (c b : UInt64) : UInt64 :=
  crc32Tab.getD ((c ^^^ b) &&& 0xff).toNat 0 ^^^ (c >>> 8)

/-- `update_keys`. A byte is sign extended to an `int`, of which only the low
byte is used. -/
def updateKeys (keys : CryptKeys) (c : UInt8) : CryptKeys :=
  let key0 := crc32 keys.key0 c.toUInt64
  let key1 := (keys.key1 + (key0 &&& 0xff)) * 134775813 + 1
  ⟨key0, key1, crc32 keys.key2 (key1 >>> 24)⟩

/-- Update the keys with every character of a text. -/
def updateKeysText (keys : CryptKeys) (text : Bytes) : CryptKeys := text.foldl updateKeys keys

/-- `init_keys`. -/
def initKeys (passwd : Bytes) : CryptKeys :=
  updateKeysText ⟨305419896, 591751049, 878082192⟩ passwd

/-- `decrypt_byte`: the byte of the key stream, computed in an `unsigned`. -/
def decryptByte (keys : CryptKeys) : UInt8 :=
  let temp : UInt32 := (keys.key2.toUInt32 &&& 0xffff) ||| 2
  ((temp * (temp ^^^ 1)) >>> 8).toUInt8

/-- `decrypt_buf`. -/
def decryptBuf : CryptKeys → Bytes → CryptKeys × Bytes
  | keys, [] => (keys, [])
  | keys, char :: buf =>
    let plain := char ^^^ decryptByte keys
    let (keys, buf) := decryptBuf (updateKeys keys plain) buf
    (keys, plain :: buf)

/-- `encrypt_buf`. -/
def encryptBuf : CryptKeys → Bytes → CryptKeys × Bytes
  | keys, [] => (keys, [])
  | keys, char :: buf =>
    let t := decryptByte keys
    let (keys, buf) := encryptBuf (updateKeys keys char) buf
    (keys, (char ^^^ t) :: buf)

/-- The cipher of a session as a feedback cipher. -/
def binkpCipher : FeedbackCipher CryptKeys := ⟨decryptByte, updateKeys⟩

/-- Encrypting a buffer is what the feedback cipher does. -/
theorem encryptBuf_cipher (keys : CryptKeys) (buf : Bytes) :
    encryptBuf keys buf = binkpCipher.encrypt keys buf := by
  induction buf generalizing keys with
  | nil => rfl
  | cons char buf inductionHypothesis =>
    simp only [encryptBuf, FeedbackCipher.encrypt, inductionHypothesis, binkpCipher]

/-- Decrypting a buffer is what the feedback cipher does. -/
theorem decryptBuf_cipher (keys : CryptKeys) (buf : Bytes) :
    decryptBuf keys buf = binkpCipher.decrypt keys buf := by
  induction buf generalizing keys with
  | nil => rfl
  | cons char buf inductionHypothesis =>
    simp only [decryptBuf, FeedbackCipher.decrypt, inductionHypothesis, binkpCipher]

/-- Decrypting with the keys of the sender gives back what was sent and leaves
the same keys. -/
theorem decryptBuf_encryptBuf (keys : CryptKeys) (buf : Bytes) :
    decryptBuf keys (encryptBuf keys buf).2 = ((encryptBuf keys buf).1, buf) := by
  rw [encryptBuf_cipher, decryptBuf_cipher]
  exact binkpCipher.decrypt_encrypt keys buf

/-- Decryption may be cut into pieces anywhere. -/
theorem decryptBuf_append (keys : CryptKeys) (first second : Bytes) :
    decryptBuf keys (first ++ second) =
      ((decryptBuf (decryptBuf keys first).1 second).1,
        (decryptBuf keys first).2 ++ (decryptBuf (decryptBuf keys first).1 second).2) := by
  simp only [decryptBuf_cipher]
  exact binkpCipher.decrypt_append keys first second

/-- Encryption may be cut into pieces anywhere. -/
theorem encryptBuf_append (keys : CryptKeys) (first second : Bytes) :
    encryptBuf keys (first ++ second) =
      ((encryptBuf (encryptBuf keys first).1 second).1,
        (encryptBuf keys first).2 ++ (encryptBuf (encryptBuf keys first).1 second).2) := by
  simp only [encryptBuf_cipher]
  exact binkpCipher.encrypt_append keys first second

/-- The cipher keeps the number of bytes. -/
theorem decryptBuf_length (keys : CryptKeys) (buf : Bytes) :
    (decryptBuf keys buf).2.length = buf.length := by
  induction buf generalizing keys with
  | nil => rfl
  | cons char buf inductionHypothesis =>
    simp only [decryptBuf, List.length_cons, inductionHypothesis]

/-- The cipher keeps the number of bytes. -/
theorem encryptBuf_length (keys : CryptKeys) (buf : Bytes) :
    (encryptBuf keys buf).2.length = buf.length := by
  induction buf generalizing keys with
  | nil => rfl
  | cons char buf inductionHypothesis =>
    simp only [encryptBuf, List.length_cons, inductionHypothesis]

end Binkleyforce
