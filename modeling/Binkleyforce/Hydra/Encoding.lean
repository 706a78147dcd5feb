import Binkleyforce.Hydra.State
import Binkleyforce.Util.CheckSums

/-!
# Hydra packets on the line

`hydra_putpkt` and `hydra_recv`. A packet stands between two escaped characters, in one of
four formats. What the link does not carry is escaped, and the receiver drops such
characters where they come unescaped. The packet ends with its type and a check sum.
-/

namespace Binkleyforce

/-- `HYDRA_DLE`. -/
def hydraDle : UInt8 := 0x18

/-- `XON`. -/
def xon : UInt8 := 0x11

/-- `XOFF`. -/
def xoff : UInt8 := 0x13

/-- The options of the encoding by the names they have on the line. -/
inductive HydraOption where
  | xonxoff
  | telenet
  | ctlchrs
  | highctl
  | highbit
  | canasc
  | canuue
  | crc32
  deriving DecidableEq, Repr

/-- `HOPT_*`. -/
def HydraOption.value : HydraOption → Nat
  | xonxoff => 0x001
  | telenet => 0x002
  | ctlchrs => 0x004
  | highctl => 0x008
  | highbit => 0x010
  | canasc => 0x040
  | canuue => 0x080
  | crc32 => 0x100

/-- An option is among the options of the link. -/
def HydraOption.among (option : HydraOption) (options : Nat) : Bool := options &&& option.value ≠ 0

/-- The formats of packets. -/
inductive HydraFormat where
  | bin
  | hex
  | asc
  | uue
  deriving DecidableEq, Repr

/-- `HCHR_PKTEND`. -/
def hydraPktend : UInt8 := 97

/-- `HCHR_BINPKT`, `HCHR_HEXPKT`, `HCHR_ASCPKT` and `HCHR_UUEPKT`. -/
def HydraFormat.char : HydraFormat → UInt8
  | bin => 98
  | hex => 99
  | asc => 100
  | uue => 101

/-- The values of `HPKT_*`. -/
def HydraPkttype.code : HydraPkttype → UInt8
  | start => 65
  | init => 66
  | initack => 67
  | finfo => 68
  | finfoack => 69
  | data => 70
  | dataack => 71
  | rpos => 72
  | eof => 73
  | eofack => 74
  | «end» => 75
  | idle => 76
  | devdata => 77
  | devdack => 78

/-- The packet type with a value from `HPKT_MIN` to `HPKT_MAX`. -/
def hydraPkttype (code : UInt8) : Option HydraPkttype :=
  [.start, .init, .initack, .finfo, .finfoack, .data, .dataack, .rpos, .eof, .eofack, .end, .idle,
    .devdata, .devdack].find? (·.code = code)

/-- `HYDRA_MAXDATALEN`. -/
def hydraMaxdatalen : Nat := 2048 + 8 + 5

/-- `HYDRA_BUFLEN`. -/
def hydraBuflen : Nat := hydraMaxdatalen * 3 + 16

/-! ## Sending -/

section Sending

variable (txoptions : Nat)

/-- `hydra_putbinbyte`, with the last character that was sent. -/
def hydraPutbinbyte (lastchar : Int) (c : UInt8) : Bytes × Int :=
  let n := if HydraOption.highctl.among txoptions then c &&& 0x7f else c
  (if n = hydraDle || (HydraOption.xonxoff.among txoptions && (n = xon || n = xoff)) ||
      (HydraOption.telenet.among txoptions && n = 13 && lastchar = 64) ||
      (HydraOption.ctlchrs.among txoptions && (n < 32 || n = 127)) then [hydraDle, c ^^^ 0x40]
    else [c],
    n.toNat)

/-- The loop of a packet in the format BIN. -/
def hydraPutbinblock : Int → Bytes → Bytes × Int
  | lastchar, [] => ([], lastchar)
  | lastchar, c :: src =>
    let (put, last) := hydraPutbinbyte txoptions lastchar c
    let (rest, final) := hydraPutbinblock last src
    (put ++ rest, final)

/-- A digit of `hexdigit`. -/
def hexdigit (value : UInt8) : UInt8 := if value < 10 then value + 48 else value + 87

/-- `hydra_puthexbyte`. -/
def hydraPuthexbyte (c : UInt8) : Bytes :=
  if c &&& 0x80 ≠ 0 then [92, hexdigit ((c >>> 4) &&& 0x0f), hexdigit (c &&& 0x0f)]
  else if c < 32 || c = 127 then [hydraDle, c ^^^ 0x40]
  else if c = 92 then [92, 92]
  else [c]

/-- The low seven bits. -/
def sevenBits (ch : Nat) : UInt8 := UInt8.ofNat ch &&& 0x7f

/-- The characters `hydra_putascblock` puts, from the bits that wait. -/
def ascChars : Nat → Nat → Bytes → Bytes
  | ch, bitshift, [] => if 0 < bitshift then [sevenBits ch] else []
  | ch, bitshift, c :: src =>
    let ch := ch ||| (c.toNat <<< bitshift)
    let next := ch >>> 7
    sevenBits ch ::
      if 7 ≤ bitshift + 1 then sevenBits next :: ascChars 0 0 src
      else ascChars next (bitshift + 1) src

/-- `hydra_putascblock`: every character goes through `hydra_putbinbyte`. -/
def hydraPutascblock (lastchar : Int) (src : Bytes) : Bytes × Int :=
  hydraPutbinblock txoptions lastchar (ascChars 0 0 src)

/-- `HYDRA_UUENC`. -/
def hydraUuenc (c : UInt8) : UInt8 := (c &&& 0x3f) + 33

/-- `hydra_putuueblock`. Of the shifted bytes only bits are used that do not depend on
whether a `char` has a sign. Where a single byte is left, the one behind the packet is
taken in as well. -/
def hydraPutuueblock (behind : UInt8) : Bytes → Bytes
  | first :: second :: third :: src =>
    hydraUuenc (first >>> 2) ::
      hydraUuenc (((first <<< 4) &&& (0x30 : UInt8)) ||| ((second >>> 4) &&& (0x0f : UInt8))) ::
      hydraUuenc (((second <<< 2) &&& (0x3c : UInt8)) ||| ((third >>> 6) &&& (0x03 : UInt8))) ::
      hydraUuenc (third &&& 0x3f) :: hydraPutuueblock behind src
  | [first, second] =>
    [hydraUuenc (first >>> 2),
      hydraUuenc (((first <<< 4) &&& (0x30 : UInt8)) ||| ((second >>> 4) &&& (0x0f : UInt8))),
      hydraUuenc ((second <<< 2) &&& (0x3c : UInt8))]
  | [first] =>
    [hydraUuenc (first >>> 2),
      hydraUuenc (((first <<< 4) &&& (0x30 : UInt8)) ||| ((behind >>> 4) &&& (0x0f : UInt8)))]
  | [] => []

/-- The format of a packet. -/
def hydraFormat (type : HydraPkttype) : HydraFormat :=
  match type with
  | .start | .init | .initack | .end | .idle => .hex
  | _ =>
    if HydraOption.highbit.among txoptions then
      if HydraOption.ctlchrs.among txoptions && HydraOption.canuue.among txoptions then .uue
      else if HydraOption.canasc.among txoptions then .asc
      else .hex
    else .bin

/-- The check sum of a packet has 32 bits. -/
def longCrc (options : Nat) (format : HydraFormat) : Bool :=
  format ≠ .hex && HydraOption.crc32.among options

/-- The payload with its type and check sum. -/
def hydraBody (type : HydraPkttype) (src : Bytes) : Bytes :=
  let src := src ++ [type.code]
  src ++ if longCrc txoptions (hydraFormat txoptions type) then crc32Bytes src else crc16Bytes src

/-- What stands between the escaped characters. -/
def hydraEncode (lastchar : Int) (behind : UInt8) (format : HydraFormat) (src : Bytes) : Bytes × Int :=
  match format with
  | .bin => hydraPutbinblock txoptions lastchar src
  | .hex => (src.flatMap hydraPuthexbyte, lastchar)
  | .asc => hydraPutascblock txoptions lastchar src
  | .uue => (hydraPutuueblock behind src, lastchar)

/-- `hydra_putpkt`, with the byte that stands behind the packet in the buffer. -/
def hydraPutpkt (lastchar : Int) (behind : UInt8) (type : HydraPkttype) (src : Bytes) : Bytes × Int :=
  let format := hydraFormat txoptions type
  let (obuf, last) := hydraEncode txoptions lastchar behind format (hydraBody txoptions type src)
  ([hydraDle, format.char] ++ obuf ++ [hydraDle, hydraPktend] ++
      if type ≠ .data && format ≠ .bin then [13, 10] else [],
    last)

end Sending

/-! ## Receiving -/

/-- `hydra_getbinblock`: what is written to the destination, and whether it is the
packet. -/
def hydraGetbinblock (szdst : Nat) (src : Bytes) : Bytes × Bool :=
  if szdst < src.length then ([], false) else (src, true)

/-- The value of a character read as a digit. -/
def hexvalue (c : UInt8) : UInt8 := if 57 < c then c - 48 - 39 else c - 48

/-- The loop of `hydra_gethexblock` with this room left and this many characters. An
incomplete number is completed from the memory behind them. -/
def hexLoop : Nat → Nat → Bytes → Bytes
  | 0, _, _ => []
  | room + 1, left, memory =>
    if left = 0 then []
    else if memory.getD 0 0 = 92 then
      if memory.getD 1 0 = 92 then 92 :: hexLoop room (left - 2) (memory.drop 2)
      else
        ((hexvalue (memory.getD 1 0) <<< 4) ||| hexvalue (memory.getD 2 0)) ::
          hexLoop room (left - 3) (memory.drop 3)
    else memory.getD 0 0 :: hexLoop room (left - 1) (memory.drop 1)

/-- `hydra_gethexblock`. -/
def hydraGethexblock (szdst : Nat) (src behind : Bytes) : Bytes × Bool :=
  (hexLoop szdst src.length (src ++ behind), true)

/-- The loop of `hydra_getascblock` with this room left, from the bits that wait. -/
def ascLoop : Nat → Nat → Nat → Bytes → Bytes
  | _, _, _, [] => []
  | 0, _, _, _ :: _ => []
  | room + 1, c, n, char :: src =>
    let c := c ||| ((char &&& 0x7f).toNat <<< n)
    if 8 ≤ n + 7 then UInt8.ofNat (c &&& 0xff) :: ascLoop room (c >>> 8) (n + 7 - 8) src
    else ascLoop (room + 1) c (n + 7) src

/-- `hydra_getascblock`. -/
def hydraGetascblock (szdst : Nat) (src : Bytes) : Bytes × Bool := (ascLoop szdst 0 0 src, true)

/-- `HYDRA_UUDEC`. -/
def hydraUudec (c : UInt8) : UInt8 := (c - 33) &&& 0x3f

/-- `HYDRA_ISUUE`. -/
def hydraIsuue (c : UInt8) : Bool := 32 < c && c < 97

/-- The decoder of `hydra_getuueblock`. -/
def uueLoop : Bytes → Bytes × Bool
  | first :: second :: third :: fourth :: src =>
    if hydraIsuue first && hydraIsuue second && hydraIsuue third && hydraIsuue fourth then
      let (rest, done) := uueLoop src
      (((hydraUudec first <<< 2) ||| (hydraUudec second >>> 4)) ::
        ((hydraUudec second <<< 4) ||| (hydraUudec third >>> 2)) ::
        ((hydraUudec third <<< 6) ||| hydraUudec fourth) :: rest, done)
    else ([], false)
  | [first, second, third] =>
    if hydraIsuue first && hydraIsuue second then
      if hydraIsuue third then
        ([(hydraUudec first <<< 2) ||| (hydraUudec second >>> 4),
          (hydraUudec second <<< 4) ||| (hydraUudec third >>> 2)], true)
      else ([(hydraUudec first <<< 2) ||| (hydraUudec second >>> 4)], false)
    else ([], false)
  | [first, second] =>
    if hydraIsuue first && hydraIsuue second then
      ([(hydraUudec first <<< 2) ||| (hydraUudec second >>> 4)], true)
    else ([], false)
  | _ => ([], true)

/-- `hydra_getuueblock`. The characters are compared with the size of the destination, not
the bytes they stand for. -/
def hydraGetuueblock (szdst : Nat) (src : Bytes) : Bytes × Bool :=
  if src.length % 4 = 1 then ([], false)
  else if szdst < src.length / 4 * 4 + src.length % 4 then ([], false)
  else uueLoop src

/-- The part of `s_hydrainfo` that receives: the characters of the packet, with the memory
behind them; whether a packet is being received, and its format; how many escapes came one
after the other; and the memory for the decoded packet. -/
structure HydraLine where
  rxoptions : Nat
  ienc : Bytes := []
  behind : Bytes := []
  iencrcv : Bool := false
  iencfmt : HydraFormat := .bin
  idlecnt : Nat := 0
  ibuf : Bytes := []
  deriving DecidableEq, Repr

namespace HydraLine

/-- Set `iencptr` back. -/
def rewind (l : HydraLine) : HydraLine := { l with ienc := [], behind := l.ienc ++ l.behind }

/-- Store a character of the packet. -/
def store (l : HydraLine) (c : UInt8) : HydraLine :=
  if l.iencrcv then
    if l.ienc.length < hydraBuflen then
      { l with ienc := l.ienc ++ [c], behind := l.behind.drop 1 }
    else { l.rewind with iencrcv := false }
  else l

/-- Decode the packet. -/
def decode (l : HydraLine) : Bytes × Bool :=
  match l.iencfmt with
  | .bin => hydraGetbinblock hydraMaxdatalen l.ienc
  | .hex => hydraGethexblock hydraMaxdatalen l.ienc l.behind
  | .asc => hydraGetascblock hydraMaxdatalen l.ienc
  | .uue => hydraGetuueblock hydraMaxdatalen l.ienc

/-- Look at a packet of this decoded size. -/
def check (l : HydraLine) (size : Nat) : HydraReceived :=
  let long := longCrc l.rxoptions l.iencfmt
  let goodcrc :=
    if long then crc32Test (getcrc32ccitt (l.ibuf.take size))
    else crc16Test (getcrc16ccitt (l.ibuf.take size))
  let isize : Int := size - (if long then 4 else 2) - 1
  if 0 ≤ isize then
    if goodcrc then
      match hydraPkttype (l.ibuf.getD isize.toNat 0) with
      | none => .junk
      | some type => .packet type isize.toNat l.ibuf
    else .junk
  else .junk

/-- The end of a packet. -/
def finish (l : HydraLine) : HydraLine × HydraReceived :=
  if l.iencrcv then
    let (out, done) := l.decode
    let l := { l.rewind with iencrcv := false, ibuf := out ++ l.ibuf.drop out.length }
    (l, if done then l.check out.length else .nothing)
  else (l, .junk)

/-- The beginning of a packet. -/
def begin (l : HydraLine) (format : HydraFormat) : HydraLine :=
  { l.rewind with iencrcv := true, iencfmt := format }

/-- A character is dropped as one the link may have put in. -/
def drops (l : HydraLine) (c : UInt8) : Bool :=
  let n := if HydraOption.highctl.among l.rxoptions then c &&& 0x7f else c
  n ≠ hydraDle &&
    ((HydraOption.xonxoff.among l.rxoptions && (n = xon || n = xoff)) ||
      (HydraOption.ctlchrs.among l.rxoptions && (n < 32 || n = 127)))

/-- A character behind an escape. -/
def escaped (l : HydraLine) (c : UInt8) : HydraLine × Option HydraReceived :=
  if c = hydraPktend then
    let (l, received) := l.finish
    (l, some received)
  else if c = HydraFormat.bin.char then (l.begin .bin, none)
  else if c = HydraFormat.hex.char then (l.begin .hex, none)
  else if c = HydraFormat.asc.char then (l.begin .asc, none)
  else if c = HydraFormat.uue.char then (l.begin .uue, none)
  else (l.store (c ^^^ 0x40), none)

/-- The loop of `hydra_recv` for one character: what it returns, if it does. -/
def takeChar (l : HydraLine) (char : UInt8) : HydraLine × Option HydraReceived :=
  let c := if HydraOption.highbit.among l.rxoptions then char &&& 0x7f else char
  if l.drops c then (l, none)
  else if c = hydraDle then
    if 5 ≤ l.idlecnt + 1 then ({ l with idlecnt := l.idlecnt + 1 }, some .exit)
    else ({ l with idlecnt := l.idlecnt + 1 }, none)
  else if l.idlecnt ≠ 0 then { l with idlecnt := 0 }.escaped c
  else (l.store c, none)

/-- `hydra_recv` where these characters can be read and then none for a while, and those
that are left. -/
def hydraRecv : HydraLine → Bytes → HydraLine × HydraReceived × Bytes
  | l, [] => (l, .nothing, [])
  | l, char :: chars =>
    match l.takeChar char with
    | (l, some received) => (l, received, chars)
    | (l, none) => hydraRecv l chars

/-- Calls of `hydra_recv` until all these characters are read, at most so many. -/
def recvAll : Nat → HydraLine → Bytes → HydraLine × List HydraReceived
  | 0, l, _ => (l, [])
  | calls + 1, l, chars =>
    if chars.isEmpty then (l, [])
    else
      let (l, received, left) := l.hydraRecv chars
      let (l, later) := recvAll calls l left
      (l, received :: later)

/-- What the calls of `hydra_recv` return that find these pieces of the stream one after
the other. -/
def recvPieces : HydraLine → List Bytes → HydraLine × List HydraReceived
  | l, [] => (l, [])
  | l, piece :: pieces =>
    let (l, received) := l.recvAll piece.length piece
    let (l, later) := recvPieces l pieces
    (l, received ++ later)

end HydraLine

end Binkleyforce
