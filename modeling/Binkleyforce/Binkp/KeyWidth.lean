import Binkleyforce.Binkp.Crypt

/-!
# The width of the cipher's keys

The cipher was written for keys of 32 bits. Where an `unsigned long` has 64, the upper
half of the second key fills with what the multiplication carries, and none of it comes
into a byte that is used.
-/

namespace Binkleyforce

open Library

/-- The keys with exactly 32 bits. -/
structure NarrowKeys where
  key0 : UInt32 := 0
  key1 : UInt32 := 0
  key2 : UInt32 := 0
  deriving DecidableEq, Repr

/-- The check sum step on 32 bits. -/
def narrowCrc (c b : UInt32) : UInt32 :=
  (crc32Tab.getD ((c ^^^ b) &&& 0xff).toNat 0).toUInt32 ^^^ (c >>> 8)

/-- The change of the keys modulo 2^32. -/
def narrowUpdate (keys : NarrowKeys) (c : UInt8) : NarrowKeys :=
  let key0 := narrowCrc keys.key0 c.toUInt32
  let key1 := (keys.key1 + (key0 &&& 0xff)) * 134775813 + 1
  ⟨key0, key1, narrowCrc keys.key2 (key1 >>> 24)⟩

/-- The byte of the key stream. -/
def narrowByte (keys : NarrowKeys) : UInt8 :=
  let temp : UInt32 := (keys.key2 &&& 0xffff) ||| 2
  ((temp * (temp ^^^ 1)) >>> 8).toUInt8

/-- The keys a password starts with. -/
def narrowKeys (passwd : Bytes) : NarrowKeys :=
  passwd.foldl narrowUpdate ⟨305419896, 591751049, 878082192⟩

/-- The cipher modulo 2^32. -/
def narrowCipher : FeedbackCipher NarrowKeys := ⟨narrowByte, narrowUpdate⟩

/-- Encrypt a stream in the buffers it is written from. -/
def encryptBufs : CryptKeys → List Bytes → CryptKeys × List Bytes
  | keys, [] => (keys, [])
  | keys, buf :: bufs =>
    let (between, text) := encryptBuf keys buf
    let (final, texts) := encryptBufs between bufs
    (final, text :: texts)

/-- Decrypt a stream in the buffers it is read into. -/
def decryptBufs : CryptKeys → List Bytes → CryptKeys × List Bytes
  | keys, [] => (keys, [])
  | keys, buf :: bufs =>
    let (between, text) := decryptBuf keys buf
    let (final, texts) := decryptBufs between bufs
    (final, text :: texts)

/-- Buffer by buffer, too, encryption is what the feedback cipher does. -/
theorem encryptBufs_cipher (keys : CryptKeys) (bufs : List Bytes) :
    encryptBufs keys bufs = binkpCipher.encryptPieces keys bufs := by
  induction bufs generalizing keys with
  | nil => rfl
  | cons buf bufs inductionHypothesis =>
    simp only [encryptBufs, FeedbackCipher.encryptPieces, inductionHypothesis, encryptBuf_cipher]

/-- Buffer by buffer, too, decryption is what the feedback cipher does. -/
theorem decryptBufs_cipher (keys : CryptKeys) (bufs : List Bytes) :
    decryptBufs keys bufs = binkpCipher.decryptPieces keys bufs := by
  induction bufs generalizing keys with
  | nil => rfl
  | cons buf bufs inductionHypothesis =>
    simp only [decryptBufs, FeedbackCipher.decryptPieces, inductionHypothesis, decryptBuf_cipher]

/-- The check sum step depends on the low byte of its second argument only, and keeps
within 32 bits. -/
theorem crc32_narrow (c b : UInt64) (narrow low : UInt32) (same : c.toNat = narrow.toNat)
    (bytes : b.toNat % 256 = low.toNat % 256) :
    (crc32 c b).toNat = (narrowCrc narrow low).toNat := by
  have index : ((c ^^^ b) &&& 0xff).toNat = ((narrow ^^^ low) &&& 0xff).toNat := by
    simp only [UInt64.toNat_and, UInt64.toNat_xor, UInt32.toNat_and, UInt32.toNat_xor]
    change (c.toNat ^^^ b.toNat) &&& (2 ^ 8 - 1) = (narrow.toNat ^^^ low.toNat) &&& (2 ^ 8 - 1)
    rw [Nat.and_two_pow_sub_one_eq_mod, Nat.and_two_pow_sub_one_eq_mod, Nat.xor_mod_two_pow,
      Nat.xor_mod_two_pow, same]
    change narrow.toNat % 256 ^^^ b.toNat % 256 = narrow.toNat % 256 ^^^ low.toNat % 256
    rw [bytes]
  have entry := crc32Tab_narrow ((narrow ^^^ low) &&& 0xff).toNat
  unfold crc32 narrowCrc
  rw [index, UInt64.toNat_xor, UInt32.toNat_xor, UInt64.toNat_toUInt32, Nat.mod_eq_of_lt entry,
    UInt64.toNat_shiftRight, UInt32.toNat_shiftRight, same]
  rfl

/-- The wide keys agree with the narrow ones: the first and the last are equal, the
second in its lower half. -/
structure Widens (keys : CryptKeys) (narrow : NarrowKeys) : Prop where
  key0 : keys.key0.toNat = narrow.key0.toNat
  key1 : keys.key1.toUInt32 = narrow.key1
  key2 : keys.key2.toNat = narrow.key2.toNat

/-- A plain byte keeps the agreement. -/
theorem Widens.update {keys : CryptKeys} {narrow : NarrowKeys} (widens : Widens keys narrow)
    (char : UInt8) : Widens (updateKeys keys char) (narrowUpdate narrow char) := by
  have first : (crc32 keys.key0 char.toUInt64).toNat =
      (narrowCrc narrow.key0 char.toUInt32).toNat :=
    crc32_narrow _ _ _ _ widens.key0 (by simp)
  have second : ((keys.key1 + (crc32 keys.key0 char.toUInt64 &&& 0xff)) * 134775813 + 1).toUInt32 =
      (narrow.key1 + (narrowCrc narrow.key0 char.toUInt32 &&& 0xff)) * 134775813 + 1 := by
    have same : (crc32 keys.key0 char.toUInt64).toUInt32 = narrowCrc narrow.key0 char.toUInt32 := by
      apply UInt32.toNat_inj.mp
      rw [UInt64.toNat_toUInt32, first]
      exact Nat.mod_eq_of_lt (UInt32.toNat_lt _)
    simp only [UInt64.toUInt32_add, UInt64.toUInt32_mul, UInt64.toUInt32_and, widens.key1, same]
    rfl
  refine ⟨first, second, crc32_narrow _ _ _ _ widens.key2 ?_⟩
  generalize (keys.key1 + (crc32 keys.key0 char.toUInt64 &&& 0xff)) * 134775813 + 1 = wide at second ⊢
  rw [← second, UInt64.toNat_shiftRight, UInt32.toNat_shiftRight, UInt64.toNat_toUInt32,
    Nat.shiftRight_eq_div_pow, Nat.shiftRight_eq_div_pow]
  change wide.toNat / 2 ^ 24 % 256 = wide.toNat % 2 ^ 32 / 2 ^ 24 % 256
  omega

/-- Keys that agree yield the same byte. -/
theorem Widens.byte {keys : CryptKeys} {narrow : NarrowKeys} (widens : Widens keys narrow) :
    decryptByte keys = narrowByte narrow := by
  have same : keys.key2.toUInt32 = narrow.key2 := by
    apply UInt32.toNat_inj.mp
    rw [UInt64.toNat_toUInt32, widens.key2]
    exact Nat.mod_eq_of_lt (UInt32.toNat_lt _)
  unfold decryptByte narrowByte
  rw [same]

/-- The keys of a password agree. -/
theorem initKeys_widens (passwd : Bytes) : Widens (initKeys passwd) (narrowKeys passwd) := by
  have general : ∀ keys narrow, Widens keys narrow →
      Widens (updateKeysText keys passwd) (passwd.foldl narrowUpdate narrow) := by
    unfold updateKeysText
    induction passwd with
    | nil => exact fun _ _ widens => widens
    | cons char rest inductionHypothesis =>
      exact fun keys narrow widens => inductionHypothesis _ _ (widens.update char)
  exact general _ _ ⟨rfl, rfl, rfl⟩

/-- However the sender and the receiver cut a stream into buffers, the receiver gets the
plain text and the keys of both agree; and the bytes on the line are those of exact keys
of 32 bits, which decrypt alike. -/
theorem cipher_agrees (keys : CryptKeys) (passwd stream : Bytes) :
    (∀ sent arrived, arrived.flatten = (encryptBufs keys sent).2.flatten →
      (decryptBufs keys arrived).2.flatten = sent.flatten ∧
        (decryptBufs keys arrived).1 = (encryptBufs keys sent).1) ∧
    (encryptBuf (initKeys passwd) stream).2 = (narrowCipher.encrypt (narrowKeys passwd) stream).2 ∧
    (decryptBuf (initKeys passwd) stream).2 = (narrowCipher.decrypt (narrowKeys passwd) stream).2 := by
  refine ⟨fun sent arrived same => ?_, ?_, ?_⟩
  · rw [encryptBufs_cipher] at same ⊢
    rw [decryptBufs_cipher]
    exact binkpCipher.decryptPieces_encryptPieces keys sent arrived same
  · rw [encryptBuf_cipher]
    exact (binkpCipher.encrypt_related narrowCipher Widens (fun _ _ widens => widens.byte)
      (fun _ _ char widens => widens.update char) _ _ (initKeys_widens passwd) stream).1
  · rw [decryptBuf_cipher]
    exact (binkpCipher.decrypt_related narrowCipher Widens (fun _ _ widens => widens.byte)
      (fun _ _ char widens => widens.update char) _ _ (initKeys_widens passwd) stream).1

end Binkleyforce
