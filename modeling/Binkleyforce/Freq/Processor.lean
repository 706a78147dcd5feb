import Binkleyforce.Outbound.FloFiles
import Binkleyforce.Transfer.Files
import Binkleyforce.Util.Masks
import Binkleyforce.Util.Scan
import Binkleyforce.Util.Tokens

/-!
# File requests

A request file names files by masks, with passwords and times. The areas they are looked for in are
aliases, which stand for one file each, and directories. What is found is linked into the list of files
to send through a pointer to the link where the next entry goes.
-/

namespace Binkleyforce

/-! ## Requests and areas -/

/-- `s_reqlist`: a mask of a request file. -/
structure Reqlist where
  fmask : Bytes
  passwd : Option Bytes := none
  newer : Int := 0
  older : Int := 0
  skip : Bool := false
  deriving DecidableEq, Repr

/-- `s_frlist`: an alias with its file, or a directory. -/
structure Frlist where
  magic : Option Bytes := none
  path : Bytes
  passwd : Option Bytes := none
  deriving DecidableEq, Repr

/-- The length of a line of a list of areas, `BF_MAXREQLINE + 1` with its terminator, and of a line of a
request file, `BF_MAXPATH + 1`. -/
def reqLineSize : Nat := 257

/-- A file as a loop of `fgets` reads it, one buffer after the other. -/
def readLines (size : Nat) : Nat → Bytes → List Bytes
  | 0, _ => []
  | fuel + 1, rest =>
    match fgets size rest with
    | none => []
    | some line => line :: readLines size fuel (rest.drop line.length)

/-- The lines of a file, each chomped. -/
def chompedLines (content : Bytes) : List Bytes :=
  (readLines reqLineSize content.length content).map fun line => stringChomp (cstring line)

/-- An option string that is set and not empty. -/
def filled (value : Option Bytes) : Option Bytes := value.filter fun text => !text.isEmpty

/-- What a line of a list of areas says: for an alias its name comes first. -/
def frlistLine (magic : Bool) (line : Bytes) : Option Frlist :=
  if line.head? = some 35 then none
  else
    let tokens := stringTokens line none
    let magc := if magic then tokens.head? else none
    let tokens := if magic then tokens.tail else tokens
    let pwd := (tokens[1]?).bind fun pwd => if pwd.head? = some 33 then some pwd.tail else none
    match filled tokens.head?, !magic || (filled magc).isSome with
    | some path, true =>
      some {
        magic := filled magc
        path := if !magic && path.getLast? != some 47 then path ++ [47] else path
        passwd := filled pwd }
    | _, _ => none

/-- `req_readfrlist`. -/
def reqReadfrlist (content : Option Bytes) (magic : Bool) (frlist : List Frlist) : List Frlist :=
  match content with
  | none => frlist
  | some content => frlist ++ (chompedLines content).filterMap (frlistLine magic)

/-- `atol`. -/
def atol (text : Bytes) : Int :=
  let text := skipSpace text
  let negative := text.head? = some 45
  strtolMagnitude negative (if negative || text.head? = some 43 then text.tail else text)

/-- The word that follows a mask is a password or a time. -/
def reqField (req : Reqlist) (field : Bytes) : Reqlist :=
  match field with
  | 33 :: pwd => { req with passwd := filled (some pwd) }
  | 43 :: older => { req with older := if older.isEmpty then 0 else atol older }
  | 45 :: newer => { req with newer := if newer.isEmpty then 0 else atol newer }
  | _ => req

/-- What a line of a request file asks for. -/
def reqLine (ignoreMasks : Option Bytes) (line : Bytes) : Option Reqlist :=
  match splitTokens isspace line [] with
  | [] => none
  | fname :: fields =>
    if (filled ignoreMasks).any fun masks => checkmasks masks fname then none
    else some (fields.foldl reqField { fmask := fname })

/-- `req_readwazooreq`; `none` is the non-zero return. -/
def reqReadwazooreq (content : Option Bytes) (ignoreMasks : Option Bytes) : Option (List Reqlist) :=
  content.map fun content => (chompedLines content).filterMap (reqLine ignoreMasks)

/-! ## The processor -/

/-- What `stat` tells of a file. -/
structure FreqStat where
  regular : Bool
  size : Nat
  fits : size < 2 ^ 63
  deriving DecidableEq

/-- What the system answers while a request file is processed: the files that can be read, `stat`, the
directories as `readdir` goes through them, and the answer list of the external processor, where it was
started, ended well and left one. -/
structure FreqSystem where
  read : Bytes → Option Bytes
  stat : Bytes → Option FreqStat
  readdir : Bytes → Option (List Bytes)
  answerList : Option Bytes := none

/-- The options of the processor. The reader of the configuration takes nothing but digits for a number. -/
structure FreqConf where
  limitNumber : Nat := 0
  limitSize : Nat := 0
  srifCommand : Option Bytes := none
  ignoreMasks : Option Bytes := none
  aliasList : Option Bytes := none
  dirList : Option Bytes := none
  long : limitNumber < 2 ^ 63 ∧ limitSize < 2 ^ 63 := by decide

/-- `s_freq`, as far as files are added: the list behind the caller's pointer, and the link that `flast`
points to, which is that pointer itself or the link behind the entry of this number. -/
structure Freq where
  filelist : List FileEntry
  flast : Nat := 0
  fnumber : Nat := 0
  fsize : Nat := 0
  deriving DecidableEq

/-- An entry is written through `flast`: its link is the end of the list. -/
def Freq.link (freq : Freq) (entry : FileEntry) : Freq :=
  { freq with
    filelist := freq.filelist.take freq.flast ++ [entry]
    flast := freq.flast + 1
    fnumber := freq.fnumber + 1
    fsize := (freq.fsize + entry.size) % 2 ^ 64 }

section Processor

variable (conf : FreqConf) (sys : FreqSystem)

/-- `freq.fileslimit`, an `int`. -/
def FreqConf.fileslimit : Int := Int.bmod conf.limitNumber (2 ^ 32)

/-- The entry of a file that is found. -/
def answerEntry (fname : Bytes) (size : Nat) : FileEntry where
  fname := fname
  size := size
  type := typeReqansw
  flavor := 0
  action := .nothing
  status := .willsend
  flodsc := 0

/-- `req_addfile`; the flag tells that no more files can be sent. -/
def reqAddfile (fname : Bytes) (freq : Freq) : Freq × Bool :=
  let freq :=
    match sys.stat fname with
    | none => freq
    | some st =>
      if !st.regular then freq
      else if 0 < conf.limitSize ∧ conf.limitSize < (freq.fsize + st.size) % 2 ^ 64 then freq
      else freq.link (answerEntry fname st.size)
  (freq, decide (0 < conf.fileslimit) && decide (conf.fileslimit ≤ freq.fnumber))

/-- `checkpasswd`: the password is wrong. -/
def checkpasswd (ourpwd gotpwd : Option Bytes) : Bool :=
  match filled ourpwd with
  | none => false
  | some ourpwd => !gotpwd.any (strcasecmp ourpwd)

/-- An alias in the loop of `req_proc_int`: the first request for it decides. The flag ends the loop. -/
def reqMagic (frl : Frlist) (magic : Bytes) (reqlist : List Reqlist) (freq : Freq) : List Reqlist × Freq × Bool :=
  match reqlist.findIdx? (fun rlist => strcasecmp magic rlist.fmask) with
  | none => (reqlist, freq, reqlist.all (·.skip))
  | some index =>
    if checkpasswd frl.passwd ((reqlist[index]?).bind (·.passwd)) then (reqlist, freq, reqlist.all (·.skip))
    else
      let reqlist := reqlist.modify index fun rlist => { rlist with skip := true }
      let (freq, stop) := reqAddfile conf sys frl.path freq
      (reqlist, freq, stop || reqlist.all (·.skip))

/-- The request that decides on a file of a directory. -/
def reqFor (reqlist : List Reqlist) (name : Bytes) : Option Reqlist :=
  reqlist.find? fun rlist => !rlist.skip && strcasemask name rlist.fmask

/-- A directory in the loop of `req_proc_int`. -/
def reqDir (frl : Frlist) (reqlist : List Reqlist) : List Bytes → Freq → Freq × Bool
  | [], freq => (freq, false)
  | name :: names, freq =>
    if name.head? = some 46 then reqDir frl reqlist names freq
    else
      match reqFor reqlist name with
      | none => reqDir frl reqlist names freq
      | some rlist =>
        if checkpasswd frl.passwd rlist.passwd then reqDir frl reqlist names freq
        else
          let (freq, stop) := reqAddfile conf sys (frl.path ++ name) freq
          if stop then (freq, true) else reqDir frl reqlist names freq

/-- `req_proc_int`. -/
def reqProcInt : List Frlist → List Reqlist → Freq → Freq
  | [], _, freq => freq
  | frl :: frlist, reqlist, freq =>
    match filled frl.magic with
    | some magic =>
      let (reqlist, freq, stop) := reqMagic conf sys frl magic reqlist freq
      if stop then freq else reqProcInt frlist reqlist freq
    | none =>
      match if frl.path.isEmpty then none else sys.readdir frl.path with
      | none => reqProcInt frlist reqlist freq
      | some names =>
        let (freq, stop) := reqDir conf sys frl reqlist names freq
        if stop then freq else reqProcInt frlist reqlist freq

/-- What the first character of a line of an answer list says is done with the file. -/
def answerAction (line : Bytes) : FileAction × Bytes :=
  match line with
  | 61 :: path => (.unlink, path)
  | 43 :: path => (.nothing, path)
  | 45 :: path => (.forceUnlink, path)
  | _ => (.nothing, line)

/-- A line of an answer list. -/
def answerLine (line : Bytes) : Option FileEntry :=
  if line.isEmpty then none
  else
    let (action, path) := answerAction line
    (sys.stat path).map fun st =>
      { fname := path, size := st.size, type := 0, flavor := 0, action, status := .willsend, flodsc := 0 }

/-- `req_addfilelist`. -/
def reqAddfilelist (content : Option Bytes) (freq : Freq) : Freq :=
  match content with
  | none => freq
  | some content => ((chompedLines content).filterMap (answerLine sys)).foldl Freq.link freq

/-- The areas of the internal processor: the aliases, then the directories. -/
def freqAreas : List Frlist :=
  let aliases :=
    match filled conf.aliasList with
    | none => []
    | some list => reqReadfrlist (sys.read list) true []
  match filled conf.dirList with
  | none => aliases
  | some list => reqReadfrlist (sys.read list) false aliases

/-- `req_proc`: the list of files to send, once a request file is processed. -/
def reqProc (reqname : Bytes) (filelist : List FileEntry) : List FileEntry :=
  let freq : Freq := { filelist }
  match filled conf.srifCommand with
  | some _ => (reqAddfilelist sys sys.answerList freq).filelist
  | none =>
    match reqReadwazooreq (sys.read reqname) conf.ignoreMasks with
    | none => filelist
    | some reqlist => (reqProcInt conf sys (freqAreas conf sys) reqlist freq).filelist

end Processor

end Binkleyforce
