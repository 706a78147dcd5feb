import Binkleyforce.Util.FileNames
import Binkleyforce.Util.Scan
import Binkleyforce.Util.Words

/-!
# Hydra packets

The packets both sides of a Hydra link exchange, the numbers in them and the
parsing of the one that agrees on options and windows. The numbers are read
differently where a `long` has 32 bits and where it has 64.
-/

namespace Binkleyforce

/-- The packet types `HPKT_*` that are sent. -/
inductive HydraPkttype where
  | start
  | init
  | initack
  | finfo
  | finfoack
  | data
  | dataack
  | rpos
  | eof
  | eofack
  | «end»
  | idle
  | devdata
  | devdack
  deriving DecidableEq, Repr

/-- A packet before it is encoded. -/
structure HydraPacket where
  type : HydraPkttype
  data : Bytes := []
  deriving DecidableEq, Repr

/-! ## Numbers -/

/-- `hydra_putlong`. -/
def hydraPutlong (value : Int) : Bytes := lowBytes value

/-- `hydra_putword`. -/
def hydraPutword (value : Nat) : Bytes := [UInt8.ofNat value, UInt8.ofNat (value / 2 ^ 8)]

/-- `hydra_getlong`: the four bytes are put together as an `unsigned long`. -/
def hydraGetlong (wide : Bool) (buf : Bytes) : Int := long wide (fourBytes buf)

/-- `hydra_getword`. -/
def hydraGetword (buf : Bytes) : Nat := (buf.getD 0 0).toNat + (buf.getD 1 0).toNat * 2 ^ 8

/-- `hydra_align_block_size`. -/
def hydraAlignBlockSize (size : Nat) : Nat :=
  if size ≤ 64 then 64
  else if size ≤ 128 then 128
  else if size ≤ 256 then 256
  else if size ≤ 512 then 512
  else if size ≤ 1024 then 1024
  else 2048

/-! ## Options -/

/-- The link options `HOPT_*` with the names they have on the line. -/
def hydraflags : List (Bytes × Nat) :=
  [(ascii "XON", 0x001), (ascii "TLN", 0x002), (ascii "CTL", 0x004), (ascii "HIC", 0x008),
    (ascii "HI8", 0x010), (ascii "BRK", 0x020), (ascii "ASC", 0x040), (ascii "UUE", 0x080),
    (ascii "C32", 0x100), (ascii "DEV", 0x200), (ascii "FPT", 0x400)]

/-- `HYDRA_CANOPT`: XON, TLN, CTL, HIC, HI8, ASC, UUE and C32. -/
def hydraCanopt : Nat := 0x1df

/-- `HYDRA_NECOPT`: XON, TLN, CTL, HIC, HI8 and BRK. -/
def hydraNecopt : Nat := 0x03f

/-- `HYDRA_DEFOPT`: C32. -/
def hydraDefopt : Nat := 0x100

/-- `HYDRA_RXIOPT` and `HYDRA_TXIOPT`: XON, TLN, CTL, HIC and HI8. -/
def hydraInitopt : Nat := 0x01f

/-- The loop of `hydra_putflags` over the rest of the names. -/
def putFlagNames (flags szbuf : Nat) : List (Bytes × Nat) → Bytes → Bytes
  | [], written => written
  | (name, value) :: rest, written =>
    if value &&& flags = 0 then putFlagNames flags szbuf rest written
    else if szbuf < written.length + name.length + 2 then written
    else
      putFlagNames flags szbuf rest
        (if written.isEmpty then name else written ++ [44] ++ name)

/-- `hydra_putflags`. -/
def hydraPutflags (flags szbuf : Nat) : Bytes := putFlagNames flags szbuf hydraflags []

/-- `hydra_getflags`: the options named between commas. -/
def hydraGetflags (buf : Bytes) : Nat :=
  (buf.splitOn 44).foldl
    (fun result name => result ||| ((hydraflags.find? (·.1 = name)).map (·.2)).getD 0) 0

/-- What `s_hydrainfo` holds besides the buffers of the encoding. `pktqueue` are
the packets that are still to be written, those in the output buffer included. -/
structure HydraInfo where
  sendBlockSize : Nat := 1024
  sendGoodBlocks : Nat := 0
  recvBlockSize : Nat := 1024
  txwindow : Nat := 0
  rxwindow : Nat := 0
  options : Nat := hydraDefopt &&& hydraCanopt
  rxoptions : Nat := hydraInitopt
  txoptions : Nat := hydraInitopt
  recvRposId : Int := 100
  sendRposId : Int := -1
  pktqueue : List HydraPacket := []
  deriving DecidableEq, Repr

/-- `hydra_queuepkt`. -/
def HydraInfo.queuepkt (hi : HydraInfo) (type : HydraPkttype) (data : Bytes) : HydraInfo :=
  { hi with pktqueue := hi.pktqueue ++ [⟨type, data⟩] }

/-- The two windows of an INIT packet; they are 0 where they cannot be read. -/
def parseWindows (wide : Bool) (window : Bytes) : Nat × Nat :=
  match scanHex 8 window with
  | none => (0, 0)
  | some (txwindow, rest) =>
    ((long wide txwindow).toNat,
      match scanHex 8 rest with
      | none => 0
      | some (rxwindow, _) => (long wide rxwindow).toNat)

/-- `hydra_parse_init` of a packet of this length; `none` is the return of -1. The
packet ends with a NUL, so that the strings in it end inside. -/
def hydraParseInit (wide : Bool) (pkt : Bytes) (hi : HydraInfo) : Option HydraInfo :=
  if pkt.length ≤ 8 ∨ pkt.getLast? ≠ some 0 then none
  else
    -- What stands after the last NUL is no field.
    match (pkt.drop 8).splitOn 0 with
    | _ :: canopt :: desopt :: window :: _ :: _ =>
      let options := (hi.options ||| hydraGetflags desopt) &&& hydraGetflags canopt &&& hydraCanopt
      if options < (hi.options &&& hydraNecopt) then none
      else
        some { hi with
          rxoptions := options
          txoptions := options
          txwindow := (parseWindows wide window).1
          rxwindow := (parseWindows wide window).2 }
    | _ => none

/-! ## File information -/

/-- `BFORCE_MAX_NAME`. -/
def bforceMaxName : Nat := 128

/-- The payload of a FINFO packet for a file. -/
def finfoData (wide : Bool) (netName : Bytes) (bytesTotal : Nat) (modTime : Int) : Bytes :=
  let dosname := fileGetDosName netName
  printHex (unsignedLong wide modTime) ++ printHex (unsignedLong wide bytesTotal) ++
    printHex 0 ++ printHex 0 ++ printHex 0 ++ strnxcpy dosname bforceMaxName ++ [0] ++
    if dosname = netName then [] else strnxcpy netName bforceMaxName ++ [0]

/-- The file name in a FINFO packet: the long name where there is one. The packet
ends with a NUL behind its fixed part, so that both names end inside. -/
def finfoName (pkt : Bytes) : Bytes :=
  let filename := cstring (pkt.drop 40)
  let longFilename := cstring (pkt.drop (40 + filename.length + 1))
  if filename.isEmpty then ascii "bad_name"
  else if longFilename.isEmpty then filename
  else longFilename

/-- The time and size in a FINFO packet. What the variables hold before is not
initialised; the size is stored as an `unsigned int` into the low half of a
`size_t`. -/
def finfoTimeSize (wide : Bool) (modtime : Int) (filesize : Nat) (pkt : Bytes) : Int × Nat :=
  match scanHex 8 (cstring pkt) with
  | none => (modtime, filesize)
  | some (time, rest) =>
    (long wide time,
      match scanHex 8 rest with
      | none => filesize
      | some (size, _) => storeLowHalf (filesize / 2 ^ 32) size)

end Binkleyforce
