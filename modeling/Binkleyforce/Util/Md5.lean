import Binkleyforce.Util.Text

/-!
# MD5 and CRAM digests

The digest computation of the challenge handshake, over `UInt32` words with
wrapping addition. A round is a table of message index, rotation and constant;
every step renames the four registers by one position, as the argument order of
the source's macros does.
-/

namespace Binkleyforce

/-- The four registers of the digest. -/
structure Registers where
  a : UInt32
  b : UInt32
  c : UInt32
  d : UInt32
  deriving DecidableEq, Repr

/-- `s_md5`: the number of whole chunks taken and the registers. -/
structure Md5 where
  chunks : Nat
  buf : Registers
  deriving DecidableEq, Repr

def md5F (x y z : UInt32) : UInt32 := (x &&& y) ||| (~~~x &&& z)
def md5G (x y z : UInt32) : UInt32 := (x &&& z) ||| (y &&& ~~~z)
def md5H (x y z : UInt32) : UInt32 := x ^^^ y ^^^ z
def md5I (x y z : UInt32) : UInt32 := y ^^^ (x ||| ~~~z)

/-- `ROTATE_LEFT`. -/
def rotateLeft (x n : UInt32) : UInt32 := (x <<< n) ||| (x >>> (32 - n))

/-- `md5_init`. -/
def md5Init : Md5 := ⟨0, ⟨0x67452301, 0xefcdab89, 0x98badcfe, 0x10325476⟩⟩

/-- One macro step with the round's function, followed by the renaming of the
registers that the next macro's argument order expresses. -/
def md5Step (f : UInt32 → UInt32 → UInt32 → UInt32) (words : List UInt32) (r : Registers)
    (entry : Nat × UInt32 × UInt32) : Registers :=
  let sum := r.a + f r.b r.c r.d + words.getD entry.1 0 + entry.2.2
  ⟨r.d, rotateLeft sum entry.2.1 + r.b, r.b, r.c⟩

/-- Message index, rotation and constant of the first round. -/
def md5Round1 : List (Nat × UInt32 × UInt32) :=
  [(0, 7, 3614090360), (1, 12, 3905402710), (2, 17, 606105819), (3, 22, 3250441966),
   (4, 7, 4118548399), (5, 12, 1200080426), (6, 17, 2821735955), (7, 22, 4249261313),
   (8, 7, 1770035416), (9, 12, 2336552879), (10, 17, 4294925233), (11, 22, 2304563134),
   (12, 7, 1804603682), (13, 12, 4254626195), (14, 17, 2792965006), (15, 22, 1236535329)]

/-- Message index, rotation and constant of the second round. -/
def md5Round2 : List (Nat × UInt32 × UInt32) :=
  [(1, 5, 4129170786), (6, 9, 3225465664), (11, 14, 643717713), (0, 20, 3921069994),
   (5, 5, 3593408605), (10, 9, 38016083), (15, 14, 3634488961), (4, 20, 3889429448),
   (9, 5, 568446438), (14, 9, 3275163606), (3, 14, 4107603335), (8, 20, 1163531501),
   (13, 5, 2850285829), (2, 9, 4243563512), (7, 14, 1735328473), (12, 20, 2368359562)]

/-- Message index, rotation and constant of the third round. -/
def md5Round3 : List (Nat × UInt32 × UInt32) :=
  [(5, 4, 4294588738), (8, 11, 2272392833), (11, 16, 1839030562), (14, 23, 4259657740),
   (1, 4, 2763975236), (4, 11, 1272893353), (7, 16, 4139469664), (10, 23, 3200236656),
   (13, 4, 681279174), (0, 11, 3936430074), (3, 16, 3572445317), (6, 23, 76029189),
   (9, 4, 3654602809), (12, 11, 3873151461), (15, 16, 530742520), (2, 23, 3299628645)]

/-- Message index, rotation and constant of the fourth round. -/
def md5Round4 : List (Nat × UInt32 × UInt32) :=
  [(0, 6, 4096336452), (7, 10, 1126891415), (14, 15, 2878612391), (5, 21, 4237533241),
   (12, 6, 1700485571), (3, 10, 2399980690), (10, 15, 4293915773), (1, 21, 2240044497),
   (8, 6, 1873313359), (15, 10, 4264355552), (6, 15, 2734768916), (13, 21, 1309151649),
   (4, 6, 4149444226), (11, 10, 3174756917), (2, 15, 718787259), (9, 21, 3951481745)]

/-- Unpack a chunk into little-endian words. -/
def md5Words : Bytes → List UInt32
  | b0 :: b1 :: b2 :: b3 :: rest =>
    (b0.toUInt32 ||| b1.toUInt32 <<< 8 ||| b2.toUInt32 <<< 16 ||| b3.toUInt32 <<< 24) ::
      md5Words rest
  | _ => []

/-- `md5_update`: take one 64-byte chunk. -/
def md5Update (md : Md5) (buffer : Bytes) : Md5 :=
  let words := md5Words buffer
  let r := md5Round1.foldl (md5Step md5F words) md.buf
  let r := md5Round2.foldl (md5Step md5G words) r
  let r := md5Round3.foldl (md5Step md5H words) r
  let r := md5Round4.foldl (md5Step md5I words) r
  ⟨md.chunks + 1, ⟨md.buf.a + r.a, md.buf.b + r.b, md.buf.c + r.c, md.buf.d + r.d⟩⟩

/-- Take the whole chunks at the front of the data; the rest is returned. -/
def md5Chunks : Nat → Md5 → Bytes → Md5 × Bytes
  | 0, md, data => (md, data)
  | fuel + 1, md, data =>
    if 64 ≤ data.length then md5Chunks fuel (md5Update md (data.take 64)) (data.drop 64)
    else (md, data)

/-- The bytes of a word, least significant first. -/
def md5Bytes (x : UInt32) : Bytes :=
  [x.toUInt8, (x >>> 8).toUInt8, (x >>> 16).toUInt8, (x >>> 24).toUInt8]

/-- `md5_compute`: whole chunks, then the padded tail with the bit length in
its low 32 bits. -/
def md5Compute (md : Md5) (data : Bytes) : Bytes :=
  let (md, tail) := md5Chunks (data.length / 64) md data
  let padded := tail ++ [0x80] ++ List.replicate (63 - tail.length) 0
  let (md, block) :=
    if tail.length > 55 then
      let next := md5Update md padded
      ({ next with chunks := next.chunks - 1 }, List.replicate 64 0)
    else (md, padded)
  let length := UInt32.ofNat ((tail.length + md.chunks * 64) * 8)
  let md := md5Update md (block.take 56 ++ md5Bytes length ++ block.drop 60)
  md5Bytes md.buf.a ++ md5Bytes md.buf.b ++ md5Bytes md.buf.c ++ md5Bytes md.buf.d

/-- `md5_get`. -/
def md5Get (data : Bytes) : Bytes := md5Compute md5Init data

/-- `md5_cram_get`: the keyed digest of a challenge. A secret longer than a
chunk is replaced by its own digest. -/
def md5CramGet (secret challenge : Bytes) : Bytes :=
  let secret := if secret.length > 64 then md5Get secret else secret
  let padded := secret ++ List.replicate (64 - secret.length) 0
  let inner := md5Compute (md5Update md5Init (padded.map (· ^^^ 0x36))) challenge
  md5Compute (md5Update md5Init (padded.map (· ^^^ 0x5c))) inner

end Binkleyforce
