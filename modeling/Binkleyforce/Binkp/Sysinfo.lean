import Binkleyforce.Binkp.Crypt
import Binkleyforce.Session.Passwords
import Binkleyforce.Util.Scan
import Binkleyforce.Util.Tokens

/-!
# What a BinkP remote tells about itself

The system information sent with M_NUL and M_PWD, the addresses of M_ADR and the
file information of the file commands, as they are parsed out of a received
block. A block is memory with a pointer into it: a C string runs to the first NUL
that is found there, and the routines also report how far they read and which
fields they fill how far.
-/

namespace Binkleyforce

/-! ## Memory that is read and written -/

/-- The fixed-size fields that receive text of the remote. -/
inductive Field where
  | passwd
  | systname
  | location
  | sysop
  | phone
  | flags
  | progname
  | protname
  | timestr
  | opt
  | challenge
  | fn
  | extracmd
  deriving DecidableEq, Repr

/-- The room in a field, terminator included. -/
def Field.size : Field → Nat
  | .passwd => 64 + 1
  | .systname | .location | .sysop | .phone | .flags => 120 + 1
  | .progname | .protname | .timestr => 40 + 1
  | .opt => 196 + 1
  | .challenge => 128 + 1
  | .fn => 4096
  | .extracmd => 32768 + 1

/-- An access that has to stay in bounds: bytes of a field were written, or bytes
of a received block read, below a position. -/
inductive Access where
  | store (field : Field) (upto : Nat)
  | read (upto blockLength : Nat)
  deriving DecidableEq, Repr

/-- The access stays within the field, or within the block and its terminator. -/
def Access.Within : Access → Prop
  | .store field upto => upto ≤ field.size
  | .read upto blockLength => upto ≤ blockLength + 1

instance : DecidablePred Access.Within
  | .store field upto => inferInstanceAs (Decidable (upto ≤ field.size))
  | .read upto blockLength => inferInstanceAs (Decidable (upto ≤ blockLength + 1))

/-- A pointer into a received block: the length of the block, how many of its
bytes stand before the pointer, and the memory from it on. -/
structure Pointer where
  blockLength : Nat
  before : Nat
  memory : Bytes
  deriving DecidableEq, Repr

namespace Pointer

/-- The C string the pointer stands at. -/
def text (pointer : Pointer) : Bytes := cstring pointer.memory

/-- Move the pointer. -/
def advance (pointer : Pointer) (count : Nat) : Pointer :=
  { pointer with before := pointer.before + count, memory := pointer.memory.drop count }

/-- Reading the string up to its terminator. -/
def read (pointer : Pointer) : Access :=
  .read (pointer.before + pointer.text.length + 1) pointer.blockLength

end Pointer

/-- `strnxcpy(field, src, len)`. All `len` bytes of the destination are written:
what the string leaves is padded. -/
def copyField (field : Field) (src : Pointer) (len : Nat) : Bytes × List Access :=
  (strnxcpy src.memory len, [src.read, .store field len])

/-- `strnxcat(field, src, len)`, which fills the field in the same way. -/
def appendField (field : Field) (dst : Bytes) (src : Pointer) (len : Nat) : Bytes × List Access :=
  (strnxcat dst src.memory len, [src.read, .store field (dst.length + strnxcatRoom dst len)])

/-! ## System information -/

/-- The options of a BinkP session, as bits of `options`. -/
structure BinkpOptions where
  nr : Bool := false
  mb : Bool := false
  mpwd : Bool := false
  md5 : Bool := false
  sha1 : Bool := false
  des : Bool := false
  crypt : Bool := false
  deriving DecidableEq, Repr

/-- `s_binkp_sysinfo`. The challenge is as long as `challenge_length` says. -/
structure BinkpSysinfo where
  passwd : Bytes := []
  systname : Bytes := []
  location : Bytes := []
  sysop : Bytes := []
  phone : Bytes := []
  flags : Bytes := []
  progname : Bytes := []
  protname : Bytes := []
  timestr : Bytes := []
  opt : Bytes := []
  majorver : Int := 0
  minorver : Int := 0
  options : BinkpOptions := {}
  challenge : Bytes := []
  hasTRF : Bool := false
  trfPKT : Int := 0
  trfOther : Int := 0
  keysOut : CryptKeys := {}
  keysIn : CryptKeys := {}
  deriving DecidableEq, Repr

/-- The value of a hexadecimal digit. -/
def hexDigit (char : UInt8) : Option UInt8 :=
  if isdigit char then some (char - 48)
  else if 97 ≤ tolower char && tolower char ≤ 102 then some (tolower char - 87)
  else none

/-- `string_hex_to_bin`: the bytes stored, and whether it got to the end. An
error makes the length zero. -/
def stringHexToBin : Bytes → Bytes × Bool
  | [] => ([], true)
  | high :: low :: text =>
    match hexDigit high, hexDigit low with
    | some upper, some lower =>
      let (bytes, complete) := stringHexToBin text
      ((upper * 16 + lower) :: bytes, complete)
    | _, _ => ([], false)
  | _ :: _ => ([], false)

/-- One of the hash types offered with a challenge. -/
def BinkpOptions.addHash (options : BinkpOptions) (hash : Bytes) : BinkpOptions :=
  if hash = ascii "SHA1" then { options with sha1 := true }
  else if hash = ascii "MD5" then { options with md5 := true }
  else if hash = ascii "DES" then { options with des := true }
  else options

/-- One option of `binkp_parse_options`. A challenge is stored only if it fits. -/
def binkpParseOption (binkp : BinkpSysinfo) (p : Bytes) : BinkpSysinfo × List Access :=
  if p = ascii "NR" then ({ binkp with options.nr := true }, [])
  else if p = ascii "CRYPT" then ({ binkp with options.crypt := true }, [])
  else if p = ascii "MB" then ({ binkp with options.mb := true }, [])
  else if p = ascii "MPWD" then ({ binkp with options.mpwd := true }, [])
  else if ascii "CRAM-" <+: p then
    let hashTypes := (p.drop 5).takeWhile (· ≠ 45)
    match (p.drop 5).dropWhile (· ≠ 45) with
    | [] => (binkp, [])
    | _ :: challenge =>
      let options := (splitTokens (· = 47) hashTypes []).foldl BinkpOptions.addHash binkp.options
      if challenge.length > 2 * Field.challenge.size then ({ binkp with options }, [])
      else
        let (bytes, complete) := stringHexToBin challenge
        ({ binkp with options, challenge := if complete then bytes else [] },
          [.store .challenge bytes.length])
  else (binkp, [])

/-- The loop of `binkp_parse_options`, over the options of the text. -/
def binkpParseOptionList : List Bytes → BinkpSysinfo → BinkpSysinfo × List Access
  | [], binkp => (binkp, [])
  | p :: rest, binkp =>
    let (binkp, first) := binkpParseOption binkp p
    let (binkp, later) := binkpParseOptionList rest binkp
    (binkp, first ++ later)

/-- `binkp_parse_options`. -/
def binkpParseOptions (binkp : BinkpSysinfo) (options : Pointer) : BinkpSysinfo × List Access :=
  let (binkp, accesses) := binkpParseOptionList (splitTokens isspace options.text []) binkp
  (binkp, options.read :: accesses)

/-- `sscanf(text, "%d.%d", ...)` over the values held before. -/
def scanVersion (text : Bytes) (majorver minorver : Int) : Int × Int :=
  match scanInt text with
  | none => (majorver, minorver)
  | some (major, rest) =>
    match rest with
    | 46 :: rest => (major, ((scanInt rest).map (·.1)).getD minorver)
    | _ => (major, minorver)

/-- The VER branch of `binkp_process_NUL`, at the text after the keyword. -/
def binkpProcessVER (remote : BinkpSysinfo) (buffer : Pointer) : BinkpSysinfo × List Access :=
  let mailer := buffer.text.takeWhile (· ≠ 32)
  if mailer.length = buffer.text.length then
    let (progname, accesses) := copyField .progname buffer Field.progname.size
    ({ remote with progname }, accesses)
  else
    let (progname, first) :=
      copyField .progname buffer (min Field.progname.size (mailer.length + 1))
    let remote := { remote with progname }
    let p := buffer.advance (mailer.length + 1)
    let protocol := p.text.takeWhile (· ≠ 47)
    let (remote, second) :=
      if protocol.length = p.text.length then (remote, [p.read])
      else
        let (protname, accesses) :=
          copyField .protname p (min Field.protname.size (protocol.length + 1))
        let q := p.advance (protocol.length + 1)
        let (majorver, minorver) := scanVersion q.text remote.majorver remote.minorver
        ({ remote with protname, majorver, minorver }, accesses ++ [q.read])
    let version := Int.bmod (remote.majorver * 100 + remote.minorver) (2 ^ 32)
    (if version > 100 then { remote with options.mb := true } else remote, first ++ second)

/-- The OPT branch of `binkp_process_NUL`, at the text after the keyword: the
options are collected and parsed. -/
def binkpProcessOPT (remote : BinkpSysinfo) (buffer : Pointer) : BinkpSysinfo × List Access :=
  let (opt, accesses) :=
    if remote.opt = [] then copyField .opt buffer Field.opt.size
    else
      let joined := strnxcat remote.opt (ascii " ") Field.opt.size
      let (opt, accesses) := appendField .opt joined buffer Field.opt.size
      (opt, .store .opt (remote.opt.length + strnxcatRoom remote.opt Field.opt.size) :: accesses)
  let (remote, parsed) := binkpParseOptions { remote with opt } buffer
  (remote, accesses ++ parsed)

/-- The TRF branch of `binkp_process_NUL`, at the text after the keyword. -/
def binkpProcessTRF (remote : BinkpSysinfo) (buffer : Pointer) : BinkpSysinfo :=
  match scanInt buffer.text with
  | none => remote
  | some (pkt, rest) =>
    match scanInt rest with
    | none => { remote with trfPKT := pkt }
    | some (other, _) => { remote with trfPKT := pkt, trfOther := other, hasTRF := true }

/-- `binkp_process_NUL`. -/
def binkpProcessNUL (remote : BinkpSysinfo) (buffer : Pointer) : BinkpSysinfo × List Access :=
  let value := buffer.advance 4
  let (remote, accesses) :=
    if ascii "SYS " <+: buffer.text then
      let (systname, accesses) := copyField .systname value Field.systname.size
      ({ remote with systname }, accesses)
    else if ascii "ZYZ " <+: buffer.text then
      let (sysop, accesses) := copyField .sysop value Field.sysop.size
      ({ remote with sysop }, accesses)
    else if ascii "LOC " <+: buffer.text then
      let (location, accesses) := copyField .location value Field.location.size
      ({ remote with location }, accesses)
    else if ascii "PHN " <+: buffer.text then
      let (phone, accesses) := copyField .phone value Field.phone.size
      ({ remote with phone }, accesses)
    else if ascii "NDL " <+: buffer.text then
      let (flags, accesses) := copyField .flags value Field.flags.size
      ({ remote with flags }, accesses)
    else if ascii "TIME " <+: buffer.text then
      let (timestr, accesses) := copyField .timestr (buffer.advance 5) Field.timestr.size
      ({ remote with timestr }, accesses)
    else if ascii "OPT " <+: buffer.text then binkpProcessOPT remote value
    else if ascii "VER " <+: buffer.text then binkpProcessVER remote value
    else if ascii "TRF " <+: buffer.text then (binkpProcessTRF remote value, [])
    else (remote, [])
  (remote, buffer.read :: accesses)

/-! ## Addresses and passwords -/

/-- The addresses `binkp_process_ADR` can parse in a text. -/
def parsableAddrs (text : Bytes) : List Faddr :=
  (splitTokens isspace text []).filterMap (ftnAddrparse · false)

/-- `binkp_process_ADR`: add the addresses to those of the remote. -/
def binkpProcessADR (remoteaddrs : List Sysaddr) (buffer : Pointer) : List Sysaddr × List Access :=
  ((parsableAddrs buffer.text).foldl sessionAddrsAdd remoteaddrs, [buffer.read])

/-- `binkp_auth_incoming`, for the remote's password and our challenge. -/
def binkpAuthIncoming (conf : PasswordConf) (remoteaddrs : List Sysaddr) (isProtected : Bool)
    (passwd challenge : Bytes) : CheckResult :=
  if challenge ≠ [] ∧ ascii "CRAM-MD5-" <+: passwd then
    sessionAddrsCheck conf remoteaddrs isProtected (passwd.drop 9) (some challenge)
  else sessionAddrsCheck conf remoteaddrs isProtected passwd none

/-! ## File information -/

/-- `s_bpfinfo`. -/
structure Bpfinfo where
  fn : Bytes
  sz : Nat
  tm : Int
  offs : Nat
  deriving DecidableEq, Repr

/-- What the high halves of the uninitialised numbers of an `s_bpfinfo` hold. -/
structure BpfinfoHigh where
  sz : Nat := 0
  tm : Nat := 0
  offs : Nat := 0
  deriving DecidableEq, Repr

/-- `binkp_parsfinfo`; `none` is the non-zero return. The numbers are scanned as
`int` into variables of 64 bits. -/
def binkpParsfinfo (str : Pointer) (withOffset : Bool) (high : BpfinfoHigh) :
    Option Bpfinfo × List Access :=
  if str.text.length > pathMax then (none, [str.read])
  else
    match scanWord str.text with
    | none => (none, [str.read])
    | some (fn, rest) =>
      let accesses := [str.read, .store .fn (fn.length + 1)]
      let fn := fn.map fun char => if char = 47 then 95 else char
      match scanInt rest with
      | none => (none, accesses)
      | some (sz, rest) =>
        match scanInt rest with
        | none => (none, accesses)
        | some (tm, rest) =>
          let stored : Bpfinfo :=
            ⟨fn, storeLowHalf high.sz sz, toLong (storeLowHalf high.tm tm), 0⟩
          if withOffset then
            match scanInt rest with
            | none => (none, accesses)
            | some (offs, _) => (some { stored with offs := storeLowHalf high.offs offs }, accesses)
          else (some stored, accesses)

end Binkleyforce
