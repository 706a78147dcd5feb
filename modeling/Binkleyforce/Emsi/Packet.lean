import Mathlib.Data.Finset.Insert
import Binkleyforce.Binkp.Sysinfo
import Binkleyforce.Util.FileNames
import Binkleyforce.Emsi.Fields

/-!
# EMSI packets

`emsi_createdat` and `emsi_parsedat`. The texts of the packet are C strings; the parser
changes the record of the remote and the list of its addresses as it goes, also where it
gives up.
-/

namespace Binkleyforce

/-- The flags of a single address, as `EMSI_FLAG_PU` to `EMSI_FLAG_HR`. -/
inductive NFlag where
  | pu | ha | pm | nf | nx | nr | hn | hx | hf | hr
  deriving DecidableEq, Repr

/-- The two letters of a flag. -/
def NFlag.name : NFlag → Bytes
  | .pu => ascii "PU"
  | .ha => ascii "HA"
  | .pm => ascii "PM"
  | .nf => ascii "NF"
  | .nx => ascii "NX"
  | .nr => ascii "NR"
  | .hn => ascii "HN"
  | .hx => ascii "HX"
  | .hf => ascii "HF"
  | .hr => ascii "HR"

/-- `s_sysaddr` with its flags. -/
structure LinkAddr extends Sysaddr where
  flags : Finset NFlag := ∅
  deriving DecidableEq

/-- `session_addrs_add`, for addresses with flags. -/
def linkAddrsAdd (addrs : List LinkAddr) (addr : Faddr) : List LinkAddr :=
  if addrs.any (fun present => ftnAddrcomp present.addr addr) then addrs
  else addrs ++ [{ addr := addr }]

/-- `s_linkcodes`. -/
structure Linkcodes where
  n81 : Bool := false
  pup : Bool := false
  pua : Bool := false
  npu : Bool := false
  hat : Bool := false
  pmo : Bool := false
  nfe : Bool := false
  nxp : Bool := false
  nrq : Bool := false
  hnm : Bool := false
  hxt : Bool := false
  hfe : Bool := false
  hrq : Bool := false
  fnc : Bool := false
  rma : Bool := false
  rh1 : Bool := false
  deriving DecidableEq, Repr

/-- `s_compcodes`. -/
structure Compcodes where
  ncp : Bool := false
  zmo : Bool := false
  zap : Bool := false
  dza : Bool := false
  jan : Bool := false
  hyd : Bool := false
  frq : Bool := false
  nrq : Bool := false
  arc : Bool := false
  xma : Bool := false
  fnc : Bool := false
  eii : Bool := false
  dfb : Bool := false
  cht : Bool := false
  bbs : Bool := false
  hfr : Bool := false
  deriving DecidableEq, Repr

/-- `s_emsi`. -/
structure Emsi where
  addons : Bytes := []
  haveEmsi : Bool := false
  passwd : Bytes := []
  linkcodes : Linkcodes := {}
  compcodes : Compcodes := {}
  mPid : Bytes := []
  mName : Bytes := []
  mVer : Bytes := []
  mReg : Bytes := []
  haveIdent : Bool := false
  sname : Bytes := []
  location : Bytes := []
  sysop : Bytes := []
  phone : Bytes := []
  speed : Int := 0
  flags : Bytes := []
  haveTraf : Bool := false
  netmailSize : Nat := 0
  arcmailSize : Nat := 0
  haveMoh : Bool := false
  filesSize : Nat := 0
  haveOhfr : Bool := false
  ohTime : Bytes := []
  frTime : Bytes := []
  haveTzutc : Bool := false
  tzutc : Int := 0
  haveXdatetime : Bool := false
  xdatetime : Bytes := []
  haveTrx : Bool := false
  time : Int := 0
  deriving DecidableEq, Repr

/-! ## The writer -/

/-- The upper-case hexadecimal digits of a number, at least `width`: `%08lX`. -/
def printHexUpper (width value : Nat) : Bytes :=
  let digits := (Nat.toDigits 16 value).map fun digit => UInt8.ofNat digit.toUpper.toNat
  List.replicate (width - digits.length) 48 ++ digits

/-- `%04hX`: a `short` number has four digits. -/
def printShort (value : Nat) : Bytes := printHexUpper 4 (value % 2 ^ 16)

/-- `%04d`. -/
def printPadded (value : Int) : Bytes :=
  if value < 0 then 45 :: (List.replicate (3 - (printNat value.natAbs).length) 48 ++ printNat value.natAbs)
  else List.replicate (4 - (printNat value.natAbs).length) 48 ++ printNat value.natAbs

/-- The link codes in the order they are written. -/
def Linkcodes.written (codes : Linkcodes) : List (Bool × String) :=
  [(codes.n81, "8N1,"), (codes.pup, "PUP,"), (codes.pua, "PUA,"), (codes.npu, "NPU,"),
    (codes.hat, "HAT,"), (codes.pmo, "PMO,"), (codes.nfe, "NFE,"), (codes.nxp, "NXP,"),
    (codes.nrq, "NRQ,"), (codes.hnm, "HNM,"), (codes.hxt, "HXT,"), (codes.hfe, "HFE,"),
    (codes.hrq, "HRQ,"), (codes.fnc, "FNC,"), (codes.rma, "RMA,"), (codes.rh1, "RH1,")]

/-- The compatibility codes in the order they are written. -/
def Compcodes.written (codes : Compcodes) : List (Bool × String) :=
  [(codes.ncp, "NCP,"), (codes.zmo, "ZMO,"), (codes.zap, "ZAP,"), (codes.dza, "DZA,"),
    (codes.jan, "JAN,"), (codes.hyd, "HYD,"), (codes.frq, "FRQ,"), (codes.nrq, "NRQ,"),
    (codes.arc, "ARC,"), (codes.xma, "XMA,"), (codes.fnc, "FNC,"), (codes.eii, "EII,"),
    (codes.dfb, "DFB,"), (codes.cht, "CHT,"), (codes.bbs, "BBS,"), (codes.hfr, "HFR,")]

/-- The flags of an address in the order they are written. -/
def NFlag.all : List NFlag := [.pu, .ha, .pm, .nf, .nx, .nr, .hn, .hx, .hf, .hr]

/-- `add_nflag`, the text that is added. -/
def addNflag (flag : NFlag) (number : Nat) : Bytes := flag.name ++ printNat number ++ [44]

/-- The text of the codes that are set. -/
def codesText (locale : Locale) (written : List (Bool × String)) : Bytes :=
  written.flatMap fun (set, name) => if set then addStr locale (ascii name) else []

/-- The flags of all addresses, with the number of the address. -/
def nflagsText (localaddrs : List LinkAddr) : Bytes :=
  localaddrs.zipIdx.flatMap fun (addr, number) =>
    NFlag.all.flatMap fun flag => if flag ∈ addr.flags then addNflag flag number else []

/-- The closing brace is written over the last comma. -/
def closeCodes (text : Bytes) : Bytes :=
  123 :: (if text.getLast? = some 44 then text.dropLast ++ [125] else text ++ [125])

/-- The texts of the addresses, with blanks between them. -/
def addrsText (locale : Locale) : List LinkAddr → Bytes
  | [] => []
  | [addr] => addStr locale (ftnAddrstr addr.addr)
  | addr :: rest => addStr locale (ftnAddrstr addr.addr) ++ 32 :: addrsText locale rest

/-- A field in braces. -/
def emsiField (locale : Locale) (text : Bytes) : Bytes := braced (addStr locale text)

/-- The data for `{EMSI}`. -/
def createEmsi (locale : Locale) (localaddrs : List LinkAddr) (emsi : Emsi) : Bytes :=
  emsiField locale (ascii "EMSI") ++ braced (addrsText locale localaddrs)
    ++ emsiField locale emsi.passwd
    ++ closeCodes (codesText locale emsi.linkcodes.written ++ nflagsText localaddrs)
    ++ closeCodes (codesText locale emsi.compcodes.written)
    ++ emsiField locale (if emsi.mPid.isEmpty then ascii "fe" else emsi.mPid)
    ++ emsiField locale (if emsi.mName.isEmpty then ascii "BinkleyForce" else emsi.mName)
    ++ emsiField locale (if emsi.mVer.isEmpty then ascii "X.XXX" else emsi.mVer)
    ++ emsiField locale (if emsi.mReg.isEmpty then ascii "Freeware" else emsi.mReg)

/-- The fields in brackets of `{IDENT}`. -/
def Emsi.ident (emsi : Emsi) : List Bytes :=
  [emsi.sname, emsi.location, emsi.sysop, emsi.phone,
    if emsi.speed = 0 then [] else printInt emsi.speed, emsi.flags]

/-- Fields in brackets, in braces. -/
def bracketFields (locale : Locale) (texts : List Bytes) : Bytes :=
  braced (texts.flatMap fun text => bracketed (addStr locale text))

/-- The text of `{OHFR}`: the times of file requests are sent only after those of work. -/
def Emsi.ohfr (locale : Locale) (emsi : Emsi) : Bytes :=
  if emsi.ohTime.isEmpty then []
  else if emsi.frTime.isEmpty then addStr locale emsi.ohTime
  else addStr locale emsi.ohTime ++ 32 :: addStr locale emsi.frTime

/-- `emsi_createdat` behind the length. -/
def emsiBody (locale : Locale) (localaddrs : List LinkAddr) (emsi : Emsi) : Bytes :=
  (if emsi.haveEmsi then createEmsi locale localaddrs emsi else [])
    ++ (if emsi.haveIdent then emsiField locale (ascii "IDENT") ++ bracketFields locale emsi.ident else [])
    ++ (if emsi.haveTraf then
          emsiField locale (ascii "TRAF") ++ emsiField locale
            (printHexUpper 8 emsi.netmailSize ++ 32 :: printHexUpper 8 emsi.arcmailSize)
        else [])
    ++ (if emsi.haveMoh then
          emsiField locale (ascii "MOH#") ++ bracketFields locale [printHexUpper 8 emsi.filesSize]
        else [])
    ++ (if emsi.haveOhfr then emsiField locale (ascii "OHFR") ++ braced (emsi.ohfr locale) else [])
    ++ (if emsi.haveTzutc then
          emsiField locale (ascii "TZUTC") ++ bracketFields locale [43 :: printPadded emsi.tzutc]
        else [])
    ++ (if emsi.haveXdatetime then
          emsiField locale (ascii "XDATETIME") ++ bracketFields locale [emsi.xdatetime]
        else [])
    ++ (if emsi.haveTrx then
          emsiField locale (ascii "TRX#")
            ++ bracketFields locale [printHexUpper 8 (emsi.time % 2 ^ 64).toNat]
        else [])

/-- `emsi_createdat`. -/
def emsiCreatedat (locale : Locale) (localaddrs : List LinkAddr) (emsi : Emsi) : Bytes :=
  let body := emsiBody locale localaddrs emsi
  ascii "**EMSI_DAT" ++ printShort body.length ++ body

/-! ## The parser -/

/-- What the parser fills. -/
structure EmsiState where
  remoteaddrs : List LinkAddr := []
  emsi : Emsi := {}
  deriving DecidableEq

/-- A step of the parser: what it left where it gave up, or the state and the text to go on with. -/
abbrev EmsiStep := EmsiState → Bytes → Except EmsiState (EmsiState × Bytes)

/-- `get_field` where there has to be a field. -/
def takeField (state : EmsiState) (str : Bytes) (start close : UInt8) : Except EmsiState (Bytes × Bytes) :=
  match getField str start close with
  | some read => .ok read
  | none => .error state

/-- `if( p && *p ) strnxcpy(...)`. -/
def copyText (before text : Bytes) (size : Nat) : Bytes :=
  if text.isEmpty then before else strnxcpy text size

/-- `nflgcmp`. -/
def nflgcmp (p name : Bytes) : Int :=
  if p.take 2 = name && (p.drop 2).all isdigit then atoi (p.drop 2) else -1

/-- The link codes that are not numbered, in the order they are compared. -/
def linkcodeTable : List (Bytes × (Linkcodes → Linkcodes)) :=
  [(ascii "PUP", fun codes => { codes with pup := true }),
    (ascii "PUA", fun codes => { codes with pua := true }),
    (ascii "NPU", fun codes => { codes with npu := true }),
    (ascii "HAT", fun codes => { codes with hat := true }),
    (ascii "PMO", fun codes => { codes with pmo := true }),
    (ascii "NFE", fun codes => { codes with nfe := true }),
    (ascii "NXP", fun codes => { codes with nxp := true }),
    (ascii "NRQ", fun codes => { codes with nrq := true }),
    (ascii "HNM", fun codes => { codes with hnm := true }),
    (ascii "HXT", fun codes => { codes with hxt := true }),
    (ascii "HFE", fun codes => { codes with hfe := true }),
    (ascii "HRQ", fun codes => { codes with hrq := true }),
    (ascii "FNC", fun codes => { codes with fnc := true }),
    (ascii "RMA", fun codes => { codes with rma := true }),
    (ascii "RH1", fun codes => { codes with rh1 := true })]

/-- A link code that is not numbered. -/
def plainLinkcode (p : Bytes) : Option (Linkcodes → Linkcodes) :=
  (linkcodeTable.find? fun code => p = code.1).map (·.2)

/-- The numbered flags in the order they are compared. -/
def NFlag.compared : List NFlag := [.ha, .pm, .nf, .nx, .nr, .hn, .hx, .hf, .hr]

/-- The first numbered flag that fits, with its number. -/
def numberedFlag (p : Bytes) (count : Nat) : List NFlag → Option (NFlag × Nat)
  | [] => none
  | flag :: rest =>
    let i := nflgcmp p flag.name
    if 0 ≤ i && i < count then some (flag, i.toNat) else numberedFlag p count rest

/-- `state.remoteaddrs[i].flags |= flag`. -/
def setNflag (addrs : List LinkAddr) (flag : NFlag) (i : Nat) : List LinkAddr :=
  addrs.modify i fun addr => { addr with flags := insert flag addr.flags }

/-- A change of the record. -/
def EmsiState.update (state : EmsiState) (change : Emsi → Emsi) : EmsiState :=
  { state with emsi := change state.emsi }

/-- One of the link codes. -/
def parseLinkcode (state : EmsiState) (p : Bytes) : EmsiState :=
  match plainLinkcode p with
  | some set => state.update fun emsi => { emsi with linkcodes := set emsi.linkcodes }
  | none =>
    match numberedFlag p state.remoteaddrs.length NFlag.compared with
    | some (flag, i) => { state with remoteaddrs := setNflag state.remoteaddrs flag i }
    | none => state

/-- The compatibility codes, in the order they are compared. -/
def compcodeTable : List (Bytes × (Compcodes → Compcodes)) :=
  [(ascii "ZMO", fun codes => { codes with zmo := true }),
    (ascii "ZAP", fun codes => { codes with zap := true }),
    (ascii "DZA", fun codes => { codes with dza := true }),
    (ascii "JAN", fun codes => { codes with jan := true }),
    (ascii "HYD", fun codes => { codes with hyd := true }),
    (ascii "NCP", fun codes => { codes with ncp := true }),
    (ascii "NRQ", fun codes => { codes with nrq := true }),
    (ascii "ARC", fun codes => { codes with arc := true }),
    (ascii "XMA", fun codes => { codes with xma := true }),
    (ascii "FNC", fun codes => { codes with fnc := true }),
    (ascii "EII", fun codes => { codes with eii := true }),
    (ascii "CHT", fun codes => { codes with cht := true }),
    (ascii "BBS", fun codes => { codes with bbs := true }),
    (ascii "HFR", fun codes => { codes with hfr := true })]

/-- One of the compatibility codes. -/
def parseCompcode (codes : Compcodes) (p : Bytes) : Compcodes :=
  match compcodeTable.find? fun code => p = code.1 with
  | some (_, set) => set codes
  | none => codes

/-- One step after another; a step that gives up ends them. -/
def EmsiStep.andThen (first second : EmsiStep) : EmsiStep := fun state str =>
  match first state str with
  | .ok (state, str) => second state str
  | .error state => .error state

/-- A field and what is done with it. -/
def fieldStep (start close : UInt8) (use : Bytes → EmsiState → EmsiState) : EmsiStep := fun state str =>
  match takeField state str start close with
  | .ok (p, str) => .ok (use p state, str)
  | .error state => .error state

/-- The addresses of the remote. -/
def parseAddrs (p : Bytes) (state : EmsiState) : EmsiState :=
  { state with remoteaddrs := (parsableAddrs p).foldl linkAddrsAdd state.remoteaddrs }

/-- `parsable addresses not found`. -/
def needAddrs : EmsiStep := fun state str =>
  if state.remoteaddrs.isEmpty then .error state else .ok (state, str)

/-- The password. -/
def usePasswd (p : Bytes) (state : EmsiState) : EmsiState :=
  state.update fun emsi => { emsi with passwd := copyText emsi.passwd p 31 }

/-- The link codes. -/
def useLinkcodes (p : Bytes) (state : EmsiState) : EmsiState := (commaTokens p).foldl parseLinkcode state

/-- The compatibility codes. -/
def useCompcodes (p : Bytes) (state : EmsiState) : EmsiState :=
  state.update fun emsi => { emsi with compcodes := (commaTokens p).foldl parseCompcode emsi.compcodes }

/-- The mailer product code. -/
def useMPid (p : Bytes) (state : EmsiState) : EmsiState :=
  state.update fun emsi => { emsi with mPid := copyText emsi.mPid p 31 }

/-- The mailer name. -/
def useMName (p : Bytes) (state : EmsiState) : EmsiState :=
  state.update fun emsi => { emsi with mName := copyText emsi.mName p 121 }

/-- The mailer version. -/
def useMVer (p : Bytes) (state : EmsiState) : EmsiState :=
  state.update fun emsi => { emsi with mVer := copyText emsi.mVer p 121 }

/-- The mailer serial number. -/
def useMReg (p : Bytes) (state : EmsiState) : EmsiState :=
  state.update fun emsi => { emsi with mReg := copyText emsi.mReg p 121 }

/-- The data behind `{EMSI}`. -/
def parseEmsi : EmsiStep := fun state str =>
  ((fieldStep 123 125 parseAddrs).andThen <| needAddrs.andThen <|
    (fieldStep 123 125 usePasswd).andThen <| (fieldStep 123 125 useLinkcodes).andThen <|
    (fieldStep 123 125 useCompcodes).andThen <| (fieldStep 123 125 useMPid).andThen <|
    (fieldStep 123 125 useMName).andThen <| (fieldStep 123 125 useMVer).andThen <|
    fieldStep 123 125 useMReg)
    (state.update fun emsi => { emsi with haveEmsi := true }) str

/-- The fields in brackets inside of a field in braces. -/
def nestedStep (inner : EmsiStep) : EmsiStep := fun state str =>
  match takeField state str 123 125 with
  | .ok (tmp, str) =>
    match inner state tmp with
    | .ok (state, _) => .ok (state, str)
    | .error state => .error state
  | .error state => .error state

/-- The name of the system. -/
def useSname (p : Bytes) (state : EmsiState) : EmsiState :=
  state.update fun emsi => { emsi with sname := copyText emsi.sname p 121 }

/-- Its location. -/
def useLocation (p : Bytes) (state : EmsiState) : EmsiState :=
  state.update fun emsi => { emsi with location := copyText emsi.location p 121 }

/-- The name of the sysop. -/
def useSysop (p : Bytes) (state : EmsiState) : EmsiState :=
  state.update fun emsi => { emsi with sysop := copyText emsi.sysop p 121 }

/-- The phone number. -/
def usePhone (p : Bytes) (state : EmsiState) : EmsiState :=
  state.update fun emsi => { emsi with phone := copyText emsi.phone p 121 }

/-- The speed. -/
def useSpeed (p : Bytes) (state : EmsiState) : EmsiState :=
  state.update fun emsi => { emsi with speed := (scanInt p).elim emsi.speed (·.1) }

/-- The nodelist flags. -/
def useFlags (p : Bytes) (state : EmsiState) : EmsiState :=
  state.update fun emsi => { emsi with flags := copyText emsi.flags p 121 }

/-- The data behind `{IDENT}`. -/
def parseIdent : EmsiStep := fun state str =>
  nestedStep ((fieldStep 91 93 useSname).andThen <| (fieldStep 91 93 useLocation).andThen <|
    (fieldStep 91 93 useSysop).andThen <| (fieldStep 91 93 usePhone).andThen <|
    (fieldStep 91 93 useSpeed).andThen <| fieldStep 91 93 useFlags)
    (state.update fun emsi => { emsi with haveIdent := true }) str

/-- The time of the remote. -/
def useTrx (p : Bytes) (state : EmsiState) : EmsiState :=
  match scanHex 8 p with
  | some (value, _) =>
    state.update fun emsi => { emsi with haveTrx := true, time := toLong (value % 2 ^ 64).toNat }
  | none => state

/-- `sscanf` of one of the sizes, which stores an `unsigned int` in a `size_t`. -/
def scanSize (before : Nat) (text : Bytes) : Option (Nat × Bytes) :=
  (scanHex 8 text).map fun (value, rest) => (storeLowHalf (before / 2 ^ 32) value, rest)

/-- The sizes of mail on hold. The first one is stored also where the second one is missing. -/
def useTraf (p : Bytes) (state : EmsiState) : EmsiState :=
  match scanSize state.emsi.netmailSize p with
  | none => state
  | some (netmail, p) =>
    let state := state.update fun emsi => { emsi with netmailSize := netmail }
    match scanSize state.emsi.arcmailSize p with
    | none => state
    | some (arcmail, _) =>
      state.update fun emsi => { emsi with arcmailSize := arcmail, haveTraf := true }

/-- The size of files on hold. -/
def useMoh (p : Bytes) (state : EmsiState) : EmsiState :=
  match scanSize state.emsi.filesSize p with
  | none => state
  | some (files, _) => state.update fun emsi => { emsi with filesSize := files, haveMoh := true }

/-- The times of work and of file requests: the first word, and what follows it. -/
def useOhfr (p : Bytes) (state : EmsiState) : EmsiState :=
  let q := (p.dropWhile fun char => !isspace char).dropWhile isspace
  state.update fun emsi =>
    { emsi with
      ohTime := copyText emsi.ohTime (p.takeWhile fun char => !isspace char) 121
      frTime := copyText emsi.frTime q 121 }

/-- The data behind `{OHFR}`. -/
def parseOhfr : EmsiStep := fun state str =>
  fieldStep 123 125 useOhfr (state.update fun emsi => { emsi with haveOhfr := true }) str

/-- The date and time. -/
def useXdatetime (p : Bytes) (state : EmsiState) : EmsiState :=
  state.update fun emsi => { emsi with xdatetime := copyText emsi.xdatetime p 61 }

/-- The data behind `{XDATETIME}`. -/
def parseXdatetime : EmsiStep := fun state str =>
  nestedStep (fieldStep 91 93 useXdatetime)
    (state.update fun emsi => { emsi with haveXdatetime := true }) str

/-- The data behind `{TZUTC}`, which is not looked at. -/
def parseTzutc : EmsiStep := fun state str =>
  nestedStep (fieldStep 91 93 fun _ state => state)
    (state.update fun emsi => { emsi with haveTzutc := true }) str

/-- An identifier that is not known. -/
def useAddon (tmp : Bytes) (state : EmsiState) : EmsiState :=
  state.update fun emsi =>
    { emsi with addons := strnxcat (strnxcat (strnxcat emsi.addons [123] 121) tmp 121) [125] 121 }

/-- What follows an identifier. -/
def parseSection (tmp : Bytes) : EmsiStep := fun state str =>
  if tmp = ascii "EMSI" then parseEmsi state str
  else if tmp = ascii "IDENT" then parseIdent state str
  else if tmp = ascii "TRX#" then nestedStep (fieldStep 91 93 useTrx) state str
  else if tmp = ascii "TRAF" then fieldStep 123 125 useTraf state str
  else if tmp = ascii "MOH#" then nestedStep (fieldStep 91 93 useMoh) state str
  else if tmp = ascii "OHFR" then parseOhfr state str
  else if tmp = ascii "XDATETIME" then parseXdatetime state str
  else if tmp = ascii "TZUTC" then parseTzutc state str
  else .ok (useAddon tmp state, str)

/-- Behind `{EMSI}` stand the addresses. -/
theorem parseSection_emsi (state : EmsiState) (str : Bytes) :
    parseSection (ascii "EMSI") state str = parseEmsi state str := by
  rw [parseSection, if_pos rfl]

/-- The loop of `emsi_parsedat`; a field takes two characters at least. -/
def parsedatLoop : Nat → EmsiState → Bytes → Except EmsiState EmsiState
  | 0, state, _ => .ok state
  | fuel + 1, state, str =>
    match getField str 123 125 with
    | none => .ok state
    | some (tmp, str) =>
      match parseSection tmp state str with
      | .error state => .error state
      | .ok (state, str) => parsedatLoop fuel state str

/-- `emsi_parsedat`. -/
def emsiParsedat (str : Bytes) (state : EmsiState) : Except EmsiState EmsiState :=
  parsedatLoop (str.length + 1) state str

end Binkleyforce
