import Mathlib.Data.List.Nodup
import Binkleyforce.Library.Records
import Binkleyforce.Util.Address
import Binkleyforce.Util.Times

/-!
# Mail packets

A packet is a header, the messages with a header each, and two zeros. The fields of the headers are
stored at offsets that are written out by hand, each with the width its comment gives.
-/

namespace Binkleyforce

open Library

/-- A text that a pointer points at. -/
abbrev CString := {text : Bytes // 0 ∉ text}

/-- The text in an array of characters. -/
abbrev CharArray (size : Nat) := {text : Bytes // text.length < size ∧ 0 ∉ text}

/-- `s_message`. The attributes are the bits of an `int`. -/
structure Message where
  attr : UInt32
  cost : Int
  time : Int
  orig : Faddr
  dest : Faddr
  namefrom : CharArray 36
  nameto : CharArray 36
  subject : CharArray 72
  text : Option CString
  tagline : Option CString
  tearline : Option CString
  origin : Option CString

/-- `s_packet`. -/
structure Packet where
  orig : Faddr
  dest : Faddr
  baud : Int
  password : CharArray 9
  msgs : List Message

/-- `struct tm`, with the date and the seconds. -/
structure TmDate extends Tm where
  year : Int
  mon : Fin 12
  mday : Nat
  sec : Nat

/-- What the writer asks the system for: the local time, its offset, the time now (also at each of the
messages), and whether an `fwrite` succeeds; and `BF_BANNERVER`, which the build puts together. -/
structure PktHost where
  localtime : Int → TmDate
  gmtoffset : Int
  now : Int
  clock : Nat → Int
  fwrite : Nat → Bool
  bannerver : CString

/-! ## Fields -/

/-- The fields of the header of a packet (`PKTHDR_...`), as far as they are stored. -/
inductive PktHdr where
  | origNode | destNode | year | month | day | hour | minute | second | baud | pktType | origNet | destNet
  | prodCodeLow | revMajor | password | qOrigZone | qDestZone | origZone | destZone | origPoint | destPoint
  deriving DecidableEq

/-- Their offsets. A field reaches to the next one. -/
def pktHdr : Layout PktHdr where
  offset
    | .origNode => 0
    | .destNode => 2
    | .year => 4
    | .month => 6
    | .day => 8
    | .hour => 10
    | .minute => 12
    | .second => 14
    | .baud => 16
    | .pktType => 18
    | .origNet => 20
    | .destNet => 22
    | .prodCodeLow => 24
    | .revMajor => 25
    | .password => 26
    | .qOrigZone => 34
    | .qDestZone => 36
    | .origZone => 46
    | .destZone => 48
    | .origPoint => 50
    | .destPoint => 52
  width
    | .prodCodeLow | .revMajor => 1
    | .password => 8
    | _ => 2

/-- `PKTHDR_SIZE`. -/
def pktHdrSize : Nat := 58

/-- The fields of the header of a message (`PKTMSGHDR_...`). -/
inductive PktMsgHdr where
  | pktType | origNode | destNode | origNet | destNet | attr | cost | date | toUser | fromUser | subject
  deriving DecidableEq

/-- Their offsets, and the widths that the comments beside them give. -/
def pktMsgHdr : Layout PktMsgHdr where
  offset
    | .pktType => 0
    | .origNode => 2
    | .destNode => 4
    | .origNet => 6
    | .destNet => 8
    | .attr => 10
    | .cost => 12
    | .date => 14
    | .toUser => 24
    | .fromUser => 60
    | .subject => 96
  width
    | .date => 20
    | .toUser => 36
    | .fromUser => 36
    | .subject => 72
    | _ => 2

/-- `PKTMSGHDR_SIZE`. -/
def pktMsgHdrSize : Nat := 168

/-- `MSGATTR_NOTZEROED`: private, crash, file attached, reserved, and the three kinds of receipts. -/
def msgattrNotzeroed : UInt32 := 0x0001 ||| 0x0002 ||| 0x0010 ||| 0x0400 ||| 0x1000 ||| 0x2000 ||| 0x4000

/-! ## Writing -/

/-- `pkt_putword`. -/
def pktPutword (val : Int) : Bytes := [UInt8.ofNat (val % 2 ^ 8).toNat, UInt8.ofNat (val / 2 ^ 8 % 2 ^ 8).toNat]

/-- `pkt_putbyte`. -/
def pktPutbyte (val : Int) : Bytes := [UInt8.ofNat (val % 2 ^ 8).toNat]

/-- `pkt_getword`. -/
def pktGetword (buf : Bytes) : Int := (buf.getD 0 0).toNat + (buf.getD 1 0).toNat * 2 ^ 8

/-- `strnxcpy(dst, src, len)`, the bytes it writes. -/
def strnxcpyBytes (src : Bytes) (len : Nat) : Bytes := strncpy src (len - 1) ++ [0]

/-- `%02d`. -/
def printTwo (value : Int) : Bytes := List.replicate (2 - (printInt value).length) 48 ++ printInt value

/-- `months`. -/
def months : List Bytes :=
  ["Jan", "Feb", "Mar", "Apr", "May", "Jun", "Jul", "Aug", "Sep", "Oct", "Nov", "Dec"].map ascii

/-- `time_string_msghdr`, which takes no time as the time now. -/
def timeStringMsghdr (localtime : Int → TmDate) (now t : Int) : Bytes :=
  let ptm := localtime (if t = 0 then now else t)
  printTwo ptm.mday ++ ascii " " ++ months.getD ptm.mon [] ++ ascii " " ++
    printTwo (if ptm.year < 100 then ptm.year else ptm.year.tmod 100) ++ ascii "  " ++
    printTwo ptm.hour ++ ascii ":" ++ printTwo ptm.min ++ ascii ":" ++ printTwo ptm.sec

/-- What `pkt_putpktheader` stores, in its order. -/
def pktHeaderStores (host : PktHost) (pkt : Packet) : List (PktHdr × Bytes) :=
  -- `localtogmt` takes the offset off, and `localtime` is asked all the same.
  let ptm := host.localtime (host.now - host.gmtoffset * 60)
  [(.origNode, pktPutword pkt.orig.node), (.destNode, pktPutword pkt.dest.node),
    (.year, pktPutword ptm.year), (.month, pktPutword ptm.mon.val), (.day, pktPutword ptm.mday),
    (.hour, pktPutword ptm.hour), (.minute, pktPutword ptm.min), (.second, pktPutword ptm.sec),
    (.baud, pktPutword pkt.baud), (.pktType, pktPutword 0x0002),
    (.origNet, pktPutword pkt.orig.net), (.destNet, pktPutword pkt.dest.net),
    (.prodCodeLow, pktPutbyte 0xfe), (.revMajor, pktPutword 0),
    (.password, pkt.password.val.take (min 8 pkt.password.val.length)),
    (.qOrigZone, pktPutword pkt.orig.zone), (.qDestZone, pktPutword pkt.dest.zone),
    (.origZone, pktPutword pkt.orig.zone), (.destZone, pktPutword pkt.dest.zone),
    (.origPoint, pktPutword pkt.orig.point), (.destPoint, pktPutword pkt.dest.point)]

/-- `pkt_putpktheader`. -/
def pktPutpktheader (host : PktHost) (pkt : Packet) : Bytes :=
  pktHdr.fill (pktHeaderStores host pkt) (List.replicate pktHdrSize 0)

/-- What `pkt_putmsgheader` stores, in its order. -/
def msgHeaderStores (msg : Message) (date : Bytes) : List (PktMsgHdr × Bytes) :=
  [(.pktType, pktPutword 0x0002), (.origNode, pktPutword msg.orig.node), (.destNode, pktPutword msg.dest.node),
    (.origNet, pktPutword msg.orig.net), (.destNet, pktPutword msg.dest.net),
    (.attr, pktPutword (msg.attr &&& msgattrNotzeroed).toNat), (.cost, pktPutword msg.cost),
    (.date, strnxcpyBytes date 20), (.toUser, strnxcpyBytes msg.nameto 36),
    (.fromUser, strnxcpyBytes msg.namefrom 36), (.subject, strnxcpyBytes msg.subject 72)]

/-- `pkt_putmsgheader`, with the text of its time. -/
def pktPutmsgheader (msg : Message) (date : Bytes) : Bytes :=
  pktMsgHdr.fill (msgHeaderStores msg date) (List.replicate pktMsgHdrSize 0)

/-- A line with what stands before it, where there is one. -/
def pktLine (lead : String) (line : Option CString) : Bytes :=
  line.elim [] fun text => ascii lead ++ text.val ++ [13]

/-- The text of a message, as `pkt_writepacket` prints it. -/
def pktBody (host : PktHost) (msg : Message) : Bytes :=
  pktLine "" msg.text ++ pktLine "... " msg.tagline ++ pktLine "--- " (some (msg.tearline.getD host.bannerver)) ++
    pktLine "* Origin: " msg.origin

/-- The text of the time of a message. -/
def PktHost.date (host : PktHost) (index : Nat) (msg : Message) : Bytes :=
  timeStringMsghdr host.localtime (host.clock index) msg.time

/-- The loop of `pkt_writepacket`, from a message on: its result, and what is in the file. -/
def pktWritemsgs (host : PktHost) (index : Nat) : List Message → Bytes → Int × Bytes
  | [], fp => (0, fp ++ [0, 0])
  | msg :: rest, fp =>
    -- `fprintf` and `fputc` are not asked for their results: what they are given counts as written.
    if host.fwrite (index + 1) then
      pktWritemsgs host (index + 1) rest (fp ++ pktPutmsgheader msg (host.date index msg) ++ pktBody host msg ++ [0])
    else (1, fp)

/-- `pkt_writepacket`. -/
def pktWritepacket (host : PktHost) (pkt : Packet) : Int × Bytes :=
  if host.fwrite 0 then pktWritemsgs host 0 pkt.msgs (pktPutpktheader host pkt) else (1, [])

/-! ## Reading -/

/-- What the header of a packet says. -/
structure PacketRead where
  origZone : Int
  origNet : Int
  origNode : Int
  origPoint : Int
  destZone : Int
  destNet : Int
  destNode : Int
  destPoint : Int
  qOrigZone : Int
  qDestZone : Int
  password : Bytes
  deriving DecidableEq

/-- What the header of a message and the text behind it say. -/
structure MessageRead where
  origNet : Int
  origNode : Int
  destNet : Int
  destNode : Int
  attr : Int
  cost : Int
  date : Bytes
  toUser : Bytes
  fromUser : Bytes
  subject : Bytes
  body : Bytes
  deriving DecidableEq

/-- The header of a packet, each field read where it is declared. -/
def readPktHeader (header : Bytes) : PacketRead :=
  let word := fun field => pktGetword (pktHdr.read header field)
  { origZone := word .origZone
    origNet := word .origNet
    origNode := word .origNode
    origPoint := word .origPoint
    destZone := word .destZone
    destNet := word .destNet
    destNode := word .destNode
    destPoint := word .destPoint
    qOrigZone := word .qOrigZone
    qDestZone := word .qDestZone
    password := cstring (pktHdr.read header .password) }

/-- A message, each field of its header read where it is declared. -/
def readMsg (header body : Bytes) : MessageRead :=
  let word := fun field => pktGetword (pktMsgHdr.read header field)
  let text := fun field => cstring (pktMsgHdr.read header field)
  { origNet := word .origNet
    origNode := word .origNode
    destNet := word .destNet
    destNode := word .destNode
    attr := word .attr
    cost := word .cost
    date := text .date
    toUser := text .toUser
    fromUser := text .fromUser
    subject := text .subject
    body := body }

/-- The messages up to the end of the packet, which is the end of the file. No more are read than asked for. -/
def readMsgs : Nat → Bytes → Option (List MessageRead)
  | 0, _ => none
  | more + 1, bytes =>
    if bytes = [0, 0] then some []
    else if pktGetword bytes ≠ 2 then none
    else
      let behind := bytes.drop pktMsgHdrSize
      let body := cstring behind
      if (behind.drop body.length).head? = some 0 then
        (readMsgs more (behind.drop (body.length + 1))).map (readMsg (bytes.take pktMsgHdrSize) body :: ·)
      else none

/-- A packet: what its header says, and its messages. -/
def readPacket (bytes : Bytes) : Option (PacketRead × List MessageRead) :=
  (readMsgs bytes.length (bytes.drop pktHdrSize)).map (readPktHeader (bytes.take pktHdrSize), ·)

/-- What is to be read of the header of a packet. -/
def Packet.header (pkt : Packet) : PacketRead where
  origZone := pkt.orig.zone
  origNet := pkt.orig.net
  origNode := pkt.orig.node
  origPoint := pkt.orig.point
  destZone := pkt.dest.zone
  destNet := pkt.dest.net
  destNode := pkt.dest.node
  destPoint := pkt.dest.point
  qOrigZone := pkt.orig.zone
  qDestZone := pkt.dest.zone
  password := pkt.password

/-- What is to be read of a message. The date has room for 19 characters and a zero. -/
def Message.shown (msg : Message) (date body : Bytes) : MessageRead where
  origNet := msg.orig.net
  origNode := msg.orig.node
  destNet := msg.dest.net
  destNode := msg.dest.node
  attr := (msg.attr &&& msgattrNotzeroed).toNat
  cost := msg.cost
  date := date.take 19
  toUser := msg.nameto
  fromUser := msg.namefrom
  subject := msg.subject
  body := body

/-- What is to be read of the messages. -/
def Packet.messages (pkt : Packet) (host : PktHost) : List MessageRead :=
  pkt.msgs.zipIdx.map fun (msg, index) => msg.shown (host.date index msg) (pktBody host msg)

/-- The packet is read back as it is. -/
def Packet.Recovered (pkt : Packet) (host : PktHost) (bytes : Bytes) : Prop :=
  readPacket bytes = some (pkt.header, pkt.messages host)

/-- No field of a header is overwritten by a later one. -/
def Packet.Undisturbed (pkt : Packet) (host : PktHost) : Prop :=
  (∀ field, pktHdr.Undisturbed field (pktHeaderStores host pkt)) ∧
    ∀ one ∈ pkt.msgs.zipIdx, ∀ field, pktMsgHdr.Undisturbed field (msgHeaderStores one.1 (host.date one.2 one.1))

/-- The numbers are words. -/
structure Packet.Words (pkt : Packet) : Prop where
  orig : pkt.orig.Words
  dest : pkt.dest.Words
  msgs : ∀ msg ∈ pkt.msgs, msg.orig.Words ∧ msg.dest.Words ∧ 0 ≤ msg.cost ∧ msg.cost < 2 ^ 16

/-- The name of the addressee is what stands in the second half of the date. -/
def Message.NamedAfter (msg : Message) (date : Bytes) : Prop := msg.nameto.val = (date.take 19).drop 10

/-! ## Words and texts -/

/-- A word is read back. -/
theorem pktGetword_putword {val : Int} (range : 0 ≤ val ∧ val < 2 ^ 16) (rest : Bytes) :
    pktGetword (pktPutword val ++ rest) = val := by
  unfold pktGetword pktPutword
  simp only [List.cons_append, List.getD_cons_zero, List.getD_cons_succ, UInt8.toNat_ofNat']
  omega

theorem pktPutword_length (val : Int) : (pktPutword val).length = 2 := rfl

theorem strnxcpyBytes_length (src : Bytes) {len : Nat} (room : 0 < len) : (strnxcpyBytes src len).length = len := by
  rw [strnxcpyBytes, List.length_append, strncpy_length, List.length_singleton]
  omega

/-- A text that fits is read back. -/
theorem cstring_strnxcpyBytes {len : Nat} (text : CharArray len) : cstring (strnxcpyBytes text len) = text := by
  obtain ⟨text, fits, whole⟩ := text
  rw [strnxcpyBytes, cstring_strncpy whole, List.take_of_length_le]
  exact Nat.le_sub_one_of_lt fits

/-- Numbers are printed without a zero byte. -/
theorem printInt_whole (value : Int) : 0 ∉ printInt value := by
  have digits : ∀ number, 0 ∉ printNat number :=
    fun number zero => absurd (printNat_isdigit number 0 zero) (by decide)
  unfold printInt
  split
  · rw [List.mem_cons, not_or]
    exact ⟨by decide, digits _⟩
  · exact digits _

theorem printTwo_whole (value : Int) : 0 ∉ printTwo value := by
  rw [printTwo, List.mem_append, not_or]
  refine ⟨fun zero => ?_, printInt_whole value⟩
  exact absurd (List.eq_of_mem_replicate zero) (by decide)

theorem printTwo_length (value : Int) : 2 ≤ (printTwo value).length := by
  rw [printTwo, List.length_append, List.length_replicate]
  omega

theorem months_length (mon : Fin 12) : (months.getD mon []).length = 3 := by
  revert mon
  decide

theorem months_whole (mon : Fin 12) : 0 ∉ months.getD mon [] := by
  revert mon
  decide

/-- The text of a time has no zero byte, and not less than the nineteen characters of its format. -/
theorem timeStringMsghdr_text (localtime : Int → TmDate) (now t : Int) :
    0 ∉ timeStringMsghdr localtime now t ∧ 19 ≤ (timeStringMsghdr localtime now t).length := by
  unfold timeStringMsghdr
  generalize localtime (if t = 0 then now else t) = ptm
  dsimp only
  constructor
  · have one : ∀ text ∈ ([ascii " ", ascii "  ", ascii ":"] : List Bytes), 0 ∉ text := by decide
    simp only [List.mem_append, not_or]
    exact ⟨⟨⟨⟨⟨⟨⟨⟨⟨⟨printTwo_whole _, one _ (by decide)⟩, months_whole _⟩, one _ (by decide)⟩, printTwo_whole _⟩,
      one _ (by decide)⟩, printTwo_whole _⟩, one _ (by decide)⟩, printTwo_whole _⟩, one _ (by decide)⟩,
      printTwo_whole _⟩
  · have day := printTwo_length ptm.mday
    have year := printTwo_length (if ptm.year < 100 then ptm.year else ptm.year.tmod 100)
    have hour := printTwo_length ptm.hour
    have min := printTwo_length ptm.min
    have sec := printTwo_length ptm.sec
    have blank : (ascii " ").length = 1 := by decide
    have blanks : (ascii "  ").length = 2 := by decide
    have colon : (ascii ":").length = 1 := by decide
    simp only [List.length_append, months_length, blank, blanks, colon]
    omega

/-! ## The header of a packet -/

/-- The fields in the order they are stored. -/
def pktHdrOrder : List PktHdr :=
  [.origNode, .destNode, .year, .month, .day, .hour, .minute, .second, .baud, .pktType, .origNet, .destNet,
    .prodCodeLow, .revMajor, .password, .qOrigZone, .qDestZone, .origZone, .destZone, .origPoint, .destPoint]

/-- How many bytes are stored at most. The revision, a byte, is stored as a word. -/
def pktHdrReach : PktHdr → Nat
  | .revMajor => 2
  | field => pktHdr.width field

section Header

variable (host : PktHost) (pkt : Packet)

theorem pktHeaderStores_fields : (pktHeaderStores host pkt).map Prod.fst = pktHdrOrder := rfl

theorem pktHeaderStores_short : ∀ one ∈ pktHeaderStores host pkt, one.2.length ≤ pktHdrReach one.1 := by
  have password : (pkt.password.val.take (min 8 pkt.password.val.length)).length ≤ 8 := by
    rw [List.length_take]
    omega
  simp only [pktHeaderStores, List.forall_mem_cons, pktPutword_length]
  exact ⟨by decide, by decide, by decide, by decide, by decide, by decide, by decide, by decide, by decide, by decide,
    by decide, by decide, by decide, by decide, password, by decide, by decide, by decide, by decide, by decide,
    by decide, nofun⟩

theorem pktHeaderStores_inside : AllInside ((pktHeaderStores host pkt).map pktHdr.store) pktHdrSize :=
  Layout.inside_of_short (pktHeaderStores_short host pkt) fun field => by cases field <;> decide

/-- The second byte of the revision is stored before the password. -/
theorem pktHeader_undisturbed (field : PktHdr) : pktHdr.Undisturbed field (pktHeaderStores host pkt) := by
  apply Layout.undisturbed_of_apart (pktHeaderStores_short host pkt)
  rw [pktHeaderStores_fields]
  cases field <;> decide

theorem pktPutpktheader_length : (pktPutpktheader host pkt).length = pktHdrSize := by
  have size : (List.replicate pktHdrSize (0 : UInt8)).length = pktHdrSize := List.length_replicate
  refine (storeEach_length ?_).trans size
  rw [size]
  exact pktHeaderStores_inside host pkt

/-- A word of the header. -/
theorem pktHeader_word {field : PktHdr} {val : Int} (range : 0 ≤ val ∧ val < 2 ^ 16) (wide : pktHdr.width field = 2)
    (member : (field, pktPutword val) ∈ pktHeaderStores host pkt) :
    pktGetword (pktHdr.read (pktPutpktheader host pkt) field) = val := by
  have inside : AllInside ((pktHeaderStores host pkt).map pktHdr.store) (List.replicate pktHdrSize (0 : UInt8)).length := by
    rw [List.length_replicate]
    exact pktHeaderStores_inside host pkt
  rw [pktPutpktheader, (pktHeader_undisturbed host pkt field).read inside member wide.symm]
  simpa only [List.append_nil] using pktGetword_putword range []

/-- The password, with zeros behind it. -/
theorem pktHeader_password : cstring (pktHdr.read (pktPutpktheader host pkt) .password) = pkt.password := by
  have inside : AllInside ((pktHeaderStores host pkt).map pktHdr.store) (List.replicate pktHdrSize (0 : UInt8)).length := by
    rw [List.length_replicate]
    exact pktHeaderStores_inside host pkt
  obtain ⟨fits, whole⟩ := pkt.password.property
  have all : pkt.password.val.take (min 8 pkt.password.val.length) = pkt.password.val := by
    apply List.take_of_length_le
    omega
  have member : (PktHdr.password, pkt.password.val) ∈ pktHeaderStores host pkt := by
    have there : (PktHdr.password, pkt.password.val.take (min 8 pkt.password.val.length)) ∈ pktHeaderStores host pkt := by
      simp only [pktHeaderStores, List.mem_cons, true_or, or_true]
    rwa [all] at there
  have width : pktHdr.width .password = 8 := rfl
  have once : ((pktHeaderStores host pkt).map Prod.fst).Nodup := by
    rw [pktHeaderStores_fields]
    decide
  have harmless : ∀ other ∈ pktHeaderStores host pkt, other.1 ≠ PktHdr.password →
      pktHdr.Leaves .password other ∨ ∀ element ∈ other.2, element = 0 := by
    intro other there different
    have short := pktHeaderStores_short host pkt other there
    have apart : ∀ field, field ≠ .password → field = .revMajor ∨ pktHdr.Apart pktHdrReach .password field := by
      intro field
      cases field <;> decide
    rcases apart other.1 different with same | clear
    · right
      have revision : (PktHdr.revMajor, pktPutword 0) ∈ pktHeaderStores host pkt := by
        simp only [pktHeaderStores, List.mem_cons, true_or, or_true]
      rw [List.inj_on_of_nodup_map once there revision same]
      intro element zero
      have zeros : pktPutword 0 = List.replicate 2 0 := by decide
      rw [zeros] at zero
      exact List.eq_of_mem_replicate zero
    · left
      exact Layout.leaves_of_apart short clear
  rw [pktPutpktheader, (pktHeader_undisturbed host pkt .password).read_begun inside member once (by omega)
    (blank_replicate 0 (by decide)) harmless]
  have zeros : ∀ count, cstring (List.replicate count 0) = [] := by
    intro count
    cases count <;> rfl
  rw [cstring_append _ _ fun char there zero => whole (zero ▸ there), zeros, List.append_nil]

/-- The header of a packet is read back. -/
theorem readPktHeader_header (words : pkt.Words) : readPktHeader (pktPutpktheader host pkt) = pkt.header := by
  have parts : ∀ addr : Faddr, addr.Words → (0 ≤ addr.zone ∧ addr.zone < 2 ^ 16) ∧
      (0 ≤ addr.net ∧ addr.net < 2 ^ 16) ∧ (0 ≤ addr.node ∧ addr.node < 2 ^ 16) ∧
      (0 ≤ addr.point ∧ addr.point < 2 ^ 16) := by
    intro addr small
    simpa [Faddr.Words] using small
  obtain ⟨origZone, origNet, origNode, origPoint⟩ := parts pkt.orig words.orig
  obtain ⟨destZone, destNet, destNode, destPoint⟩ := parts pkt.dest words.dest
  have word : ∀ {field : PktHdr} {val : Int}, 0 ≤ val ∧ val < 2 ^ 16 → pktHdr.width field = 2 →
      (field, pktPutword val) ∈ pktHeaderStores host pkt →
      pktGetword (pktHdr.read (pktPutpktheader host pkt) field) = val := pktHeader_word host pkt
  refine PacketRead.mk.injEq .. |>.mpr ⟨?_, ?_, ?_, ?_, ?_, ?_, ?_, ?_, ?_, ?_, pktHeader_password host pkt⟩
  · exact word origZone rfl (List.mem_of_getElem? (i := 17) rfl)
  · exact word origNet rfl (List.mem_of_getElem? (i := 10) rfl)
  · exact word origNode rfl (List.mem_of_getElem? (i := 0) rfl)
  · exact word origPoint rfl (List.mem_of_getElem? (i := 19) rfl)
  · exact word destZone rfl (List.mem_of_getElem? (i := 18) rfl)
  · exact word destNet rfl (List.mem_of_getElem? (i := 11) rfl)
  · exact word destNode rfl (List.mem_of_getElem? (i := 1) rfl)
  · exact word destPoint rfl (List.mem_of_getElem? (i := 20) rfl)
  · exact word origZone rfl (List.mem_of_getElem? (i := 15) rfl)
  · exact word destZone rfl (List.mem_of_getElem? (i := 16) rfl)

end Header

/-! ## The header of a message -/

/-- The fields in the order they are stored. -/
def pktMsgHdrOrder : List PktMsgHdr :=
  [.pktType, .origNode, .destNode, .origNet, .destNet, .attr, .cost, .date, .toUser, .fromUser, .subject]

section Message

variable (msg : Message) (date : Bytes)

theorem msgHeaderStores_fields : (msgHeaderStores msg date).map Prod.fst = pktMsgHdrOrder := rfl

/-- Each field is stored in its full width. -/
theorem msgHeaderStores_full : ∀ one ∈ msgHeaderStores msg date, one.2.length = pktMsgHdr.width one.1 := by
  simp only [msgHeaderStores, List.forall_mem_cons, pktPutword_length]
  refine ⟨rfl, rfl, rfl, rfl, rfl, rfl, rfl, ?_, ?_, ?_, ?_, nofun⟩
  · exact strnxcpyBytes_length date (by decide)
  · exact strnxcpyBytes_length msg.nameto (by decide)
  · exact strnxcpyBytes_length msg.namefrom (by decide)
  · exact strnxcpyBytes_length msg.subject (by decide)

theorem msgHeaderStores_short : ∀ one ∈ msgHeaderStores msg date, one.2.length ≤ pktMsgHdr.width one.1 :=
  fun one member => Nat.le_of_eq (msgHeaderStores_full msg date one member)

theorem msgHeaderStores_inside : AllInside ((msgHeaderStores msg date).map pktMsgHdr.store) pktMsgHdrSize :=
  Layout.inside_of_short (msgHeaderStores_short msg date) fun field => by cases field <;> decide

/-- So it is in the blank header. -/
theorem msgHeader_inside : AllInside ((msgHeaderStores msg date).map pktMsgHdr.store)
    (List.replicate pktMsgHdrSize (0 : UInt8)).length := by
  rw [List.length_replicate]
  exact msgHeaderStores_inside msg date

theorem pktPutmsgheader_length : (pktPutmsgheader msg date).length = pktMsgHdrSize :=
  (storeEach_length (msgHeader_inside msg date)).trans List.length_replicate

/-- All fields but the date are left alone by what is stored after them. -/
theorem msgHeader_undisturbed {field : PktMsgHdr} (other : field ≠ .date) :
    pktMsgHdr.Undisturbed field (msgHeaderStores msg date) := by
  apply Layout.undisturbed_of_apart (msgHeaderStores_short msg date)
  rw [msgHeaderStores_fields]
  cases field
  case date => exact absurd rfl other
  all_goals decide

/-- The name of the addressee is stored into the date. -/
theorem msgHeader_disturbed : ¬ pktMsgHdr.Undisturbed .date (msgHeaderStores msg date) := by
  intro undisturbed
  have last := (List.pairwise_iff_getElem.mp undisturbed) 7 8 (show 7 < 11 by decide) (show 8 < 11 by decide) (by decide) rfl
  have size : (strnxcpyBytes msg.nameto.val 36).length = 36 := strnxcpyBytes_length msg.nameto (by decide)
  change 24 + (strnxcpyBytes msg.nameto.val 36).length ≤ 14 ∨ 14 + 20 ≤ 24 at last
  omega

/-- A field but the date is read back. -/
theorem msgHeader_read {field : PktMsgHdr} {bytes : Bytes} (other : field ≠ .date)
    (member : (field, bytes) ∈ msgHeaderStores msg date) :
    pktMsgHdr.read (pktPutmsgheader msg date) field = bytes :=
  (msgHeader_undisturbed msg date other).read (msgHeader_inside msg date) member (msgHeaderStores_full msg date _ member)

/-- Of the date the first half is left. -/
theorem msgHeader_date : pktMsgHdr.read (pktPutmsgheader msg date) .date =
    (strnxcpyBytes date 20).take 10 ++ (strnxcpyBytes msg.nameto 36).take 10 := by
  have inside := msgHeader_inside msg date
  have dateLength : (strnxcpyBytes date 20).length = 20 := strnxcpyBytes_length date (by decide)
  have nameLength : (strnxcpyBytes msg.nameto 36).length = 36 := strnxcpyBytes_length msg.nameto (by decide)
  have first : readField (pktPutmsgheader msg date) (pktMsgHdr.offset .date) 10 = (strnxcpyBytes date 20).take 10 := by
    have whole : msgHeaderStores msg date = (msgHeaderStores msg date).take 7 ++
      (.date, strnxcpyBytes date 20) :: (msgHeaderStores msg date).drop 8 := rfl
    rw [pktPutmsgheader]
    refine Layout.read_beginning whole inside (by omega) ?_
    intro other member
    simp only [msgHeaderStores, List.drop_succ_cons, List.drop_zero, List.mem_cons, List.not_mem_nil, or_false] at member
    rcases member with rfl | rfl | rfl
    · exact .inr (show 14 + 10 ≤ 24 by decide)
    · exact .inr (show 14 + 10 ≤ 60 by decide)
    · exact .inr (show 14 + 10 ≤ 96 by decide)
  have second : readField (pktPutmsgheader msg date) (pktMsgHdr.offset .toUser) 10 = (strnxcpyBytes msg.nameto 36).take 10 := by
    have whole : msgHeaderStores msg date = (msgHeaderStores msg date).take 8 ++
      (.toUser, strnxcpyBytes msg.nameto 36) :: (msgHeaderStores msg date).drop 9 := rfl
    rw [pktPutmsgheader]
    refine Layout.read_beginning whole inside (by omega) ?_
    intro other member
    simp only [msgHeaderStores, List.drop_succ_cons, List.drop_zero, List.mem_cons, List.not_mem_nil, or_false] at member
    rcases member with rfl | rfl
    · exact .inr (show 24 + 10 ≤ 60 by decide)
    · exact .inr (show 24 + 10 ≤ 96 by decide)
  rw [← first, ← second]
  exact readField_add _ 14 10 10

/-- The date that is read: the first ten characters of it, and then the name of the addressee. -/
theorem cstring_date (size : 19 ≤ date.length) (whole : 0 ∉ date) :
    cstring (pktMsgHdr.read (pktPutmsgheader msg date) .date) = date.take 10 ++ msg.nameto.val.take 10 := by
  have nonzero : ∀ char ∈ date.take 10, char ≠ 0 :=
    fun char member zero => whole (zero ▸ List.mem_of_mem_take member)
  have dateLength : (strncpy date (20 - 1)).length = 19 := strncpy_length date 19
  have nameLength : (strncpy msg.nameto.val (36 - 1)).length = 35 := strncpy_length msg.nameto.val 35
  have front : (strnxcpyBytes date 20).take 10 = date.take 10 := by
    rw [strnxcpyBytes, List.take_append_of_le_length (by omega), strncpy_take date (by decide), strncpy]
    rw [Nat.sub_eq_zero_of_le (by omega), List.replicate_zero, List.append_nil]
  have back : (strnxcpyBytes msg.nameto.val 36).take 10 = strncpy msg.nameto.val 10 := by
    rw [strnxcpyBytes, List.take_append_of_le_length (by omega), strncpy_take msg.nameto.val (by decide)]
  rw [msgHeader_date, front, back, cstring_append _ _ nonzero, ← cstring_ended _ [],
    cstring_strncpy msg.nameto.property.2]

/-- A message as its header is read: the date goes on with the name of the addressee. -/
theorem readMsg_header (orig : msg.orig.Words) (dest : msg.dest.Words) (cost : 0 ≤ msg.cost ∧ msg.cost < 2 ^ 16)
    (size : 19 ≤ date.length) (whole : 0 ∉ date) (body : Bytes) : readMsg (pktPutmsgheader msg date) body =
      { msg.shown date body with date := date.take 10 ++ msg.nameto.val.take 10 } := by
  have parts : ∀ addr : Faddr, addr.Words → (0 ≤ addr.net ∧ addr.net < 2 ^ 16) ∧
      (0 ≤ addr.node ∧ addr.node < 2 ^ 16) := by
    intro addr small
    exact ⟨small _ (List.mem_of_getElem? (i := 1) rfl), small _ (List.mem_of_getElem? (i := 2) rfl)⟩
  have word : ∀ {field : PktMsgHdr} {val : Int}, 0 ≤ val ∧ val < 2 ^ 16 → field ≠ .date →
      (field, pktPutword val) ∈ msgHeaderStores msg date →
      pktGetword (pktMsgHdr.read (pktPutmsgheader msg date) field) = val := by
    intro field val range other member
    rw [msgHeader_read msg date other member]
    simpa only [List.append_nil] using pktGetword_putword range []
  have text : ∀ {field : PktMsgHdr} {len : Nat} (chars : CharArray len), field ≠ .date →
      (field, strnxcpyBytes chars len) ∈ msgHeaderStores msg date →
      cstring (pktMsgHdr.read (pktPutmsgheader msg date) field) = chars := by
    intro field len chars other member
    rw [msgHeader_read msg date other member, cstring_strnxcpyBytes]
  have attr : (0 : Int) ≤ (msg.attr &&& msgattrNotzeroed).toNat ∧
      ((msg.attr &&& msgattrNotzeroed).toNat : Int) < 2 ^ 16 := by
    have small : (msg.attr &&& msgattrNotzeroed).toNat ≤ msgattrNotzeroed.toNat := by
      rw [UInt32.toNat_and]
      exact Nat.and_le_right
    have mask : msgattrNotzeroed.toNat = 0x7413 := by decide
    omega
  obtain ⟨origNet, origNode⟩ := parts msg.orig orig
  obtain ⟨destNet, destNode⟩ := parts msg.dest dest
  refine MessageRead.mk.injEq .. |>.mpr ⟨?_, ?_, ?_, ?_, ?_, ?_, cstring_date msg date size whole, ?_, ?_, ?_, rfl⟩
  · exact word origNet (by decide) (List.mem_of_getElem? (i := 3) rfl)
  · exact word origNode (by decide) (List.mem_of_getElem? (i := 1) rfl)
  · exact word destNet (by decide) (List.mem_of_getElem? (i := 4) rfl)
  · exact word destNode (by decide) (List.mem_of_getElem? (i := 2) rfl)
  · exact word attr (by decide) (List.mem_of_getElem? (i := 5) rfl)
  · exact word cost (by decide) (List.mem_of_getElem? (i := 6) rfl)
  · exact text msg.nameto (by decide) (List.mem_of_getElem? (i := 8) rfl)
  · exact text msg.namefrom (by decide) (List.mem_of_getElem? (i := 9) rfl)
  · exact text msg.subject (by decide) (List.mem_of_getElem? (i := 10) rfl)

/-- The whole date is read where the name of the addressee is its second half. -/
theorem date_recovered (size : 19 ≤ date.length) :
    date.take 10 ++ msg.nameto.val.take 10 = date.take 19 ↔ msg.NamedAfter date := by
  have halves : date.take 19 = date.take 10 ++ (date.take 19).drop 10 := by
    have first : (date.take 19).take 10 = date.take 10 := by
      rw [List.take_take]
      rfl
    rw [← first]
    exact (List.take_append_drop 10 (date.take 19)).symm
  have tail : ((date.take 19).drop 10).length = 9 := by
    rw [List.length_drop, List.length_take]
    omega
  unfold Message.NamedAfter
  constructor
  · intro same
    rw [halves] at same
    have second := List.append_cancel_left same
    have short : (msg.nameto.val.take 10).length = 9 := second ▸ tail
    rw [List.length_take] at short
    rwa [List.take_of_length_le (by omega)] at second
  · intro same
    have all : msg.nameto.val.take 10 = msg.nameto.val := by
      apply List.take_of_length_le
      rw [same]
      omega
    rw [all, same, ← halves]

/-- Nothing else of a message can differ. -/
theorem readMsg_recovered (body : Bytes) (size : 19 ≤ date.length) :
    { msg.shown date body with date := date.take 10 ++ msg.nameto.val.take 10 } = msg.shown date body ↔
      msg.NamedAfter date := by
  rw [← date_recovered msg date size]
  constructor
  · exact fun same => congrArg MessageRead.date same
  · intro same
    rw [same]
    rfl

end Message

/-! ## The messages -/

/-- The messages in the file, and the end of the packet. -/
def msgsBytes (host : PktHost) (index : Nat) : List Message → Bytes
  | [] => [0, 0]
  | msg :: rest =>
    pktPutmsgheader msg (host.date index msg) ++ (pktBody host msg ++ 0 :: msgsBytes host (index + 1) rest)

section Messages

variable (host : PktHost)

/-- A loop that succeeds has written all messages. -/
theorem pktWritemsgs_written {index : Nat} {msgs : List Message} {fp : Bytes}
    (written : (pktWritemsgs host index msgs fp).1 = 0) :
    (pktWritemsgs host index msgs fp).2 = fp ++ msgsBytes host index msgs := by
  induction msgs generalizing index fp with
  | nil => rfl
  | cons msg rest inductionHypothesis =>
    unfold pktWritemsgs at written ⊢
    split at written
    · rename_i accepted
      rw [if_pos accepted, inductionHypothesis written]
      simp only [msgsBytes, List.append_assoc, List.cons_append, List.nil_append]
    · cases written

/-- So has a writer that succeeds, behind the header of the packet. -/
theorem pktWritepacket_written {pkt : Packet} (written : (pktWritepacket host pkt).1 = 0) :
    (pktWritepacket host pkt).2 = pktPutpktheader host pkt ++ msgsBytes host 0 pkt.msgs := by
  unfold pktWritepacket at written ⊢
  split at written
  · rename_i accepted
    rw [if_pos accepted, pktWritemsgs_written host written]
  · exact absurd written (by decide)

/-- A line has no zero byte. -/
theorem pktLine_whole {lead : String} (plain : 0 ∉ ascii lead) (line : Option CString) : 0 ∉ pktLine lead line := by
  cases line with
  | none => exact List.not_mem_nil
  | some text =>
    have ending : (0 : UInt8) ∉ [13] := by decide
    simp only [pktLine, Option.elim_some, List.mem_append, not_or]
    exact ⟨⟨plain, text.property⟩, ending⟩

/-- The text of a message has none. -/
theorem pktBody_whole (msg : Message) : ∀ char ∈ pktBody host msg, char ≠ 0 := by
  rintro char member rfl
  simp only [pktBody, List.mem_append, or_assoc] at member
  rcases member with text | tagline | tearline | origin
  · exact pktLine_whole (by decide) _ text
  · exact pktLine_whole (by decide) _ tagline
  · exact pktLine_whole (by decide) _ tearline
  · exact pktLine_whole (by decide) _ origin

/-- A message begins with its type. -/
theorem pktPutmsgheader_type (msg : Message) (date rest : Bytes) :
    pktGetword (pktPutmsgheader msg date ++ rest) = 2 := by
  have read : pktMsgHdr.read (pktPutmsgheader msg date) .pktType = pktPutword 2 :=
    msgHeader_read msg date (by decide) (List.mem_of_getElem? (i := 0) rfl)
  have front : (pktPutmsgheader msg date).take 2 = pktPutword 2 := (readField_front _ 2).symm.trans read
  rw [← List.take_append_drop 2 (pktPutmsgheader msg date), front, List.append_assoc]
  exact pktGetword_putword (by decide) _

/-- The messages are read one after another, by induction on them. -/
theorem readMsgs_msgs {more index : Nat} {msgs : List Message} (enough : msgs.length < more) :
    readMsgs more (msgsBytes host index msgs) = some ((msgs.zipIdx index).map fun (msg, index) =>
      readMsg (pktPutmsgheader msg (host.date index msg)) (pktBody host msg)) := by
  induction msgs generalizing more index with
  | nil =>
    obtain ⟨fewer, rfl⟩ := Nat.exists_eq_add_of_lt enough
    rfl
  | cons msg rest inductionHypothesis =>
    cases more with
    | zero => exact absurd enough (Nat.not_lt_zero _)
    | succ more =>
      have type := pktPutmsgheader_type msg (host.date index msg)
        (pktBody host msg ++ 0 :: msgsBytes host (index + 1) rest)
      have notEnd : msgsBytes host index (msg :: rest) ≠ [0, 0] := by
        intro same
        rw [msgsBytes] at same
        rw [same] at type
        exact absurd type (by decide)
      have size := pktPutmsgheader_length msg (host.date index msg)
      have body : cstring (pktBody host msg ++ 0 :: msgsBytes host (index + 1) rest) = pktBody host msg := by
        rw [cstring_ended, cstring_whole _ (pktBody_whole host msg)]
      have behind : (pktBody host msg ++ 0 :: msgsBytes host (index + 1) rest).drop ((pktBody host msg).length + 1) =
          msgsBytes host (index + 1) rest := by
        rw [← List.drop_drop, List.drop_left]
        rfl
      rw [readMsgs, if_neg notEnd, msgsBytes, if_neg (not_not_intro type), List.drop_left' size, List.take_left' size]
      dsimp only
      rw [body, List.drop_left, List.head?_cons, if_pos rfl, behind,
        inductionHypothesis (Nat.lt_of_succ_lt_succ enough), List.zipIdx_cons]
      rfl

/-- More bytes are written than messages. -/
theorem msgsBytes_length (index : Nat) (msgs : List Message) : msgs.length < (msgsBytes host index msgs).length := by
  induction msgs generalizing index with
  | nil => exact Nat.zero_lt_succ _
  | cons msg rest inductionHypothesis =>
    have later := inductionHypothesis (index + 1)
    rw [msgsBytes, List.length_append, List.length_append, List.length_cons, List.length_cons]
    omega

end Messages

/-- What is read of a packet: all of it, but the second half of the dates. -/
theorem packet_read {host : PktHost} {pkt : Packet} (words : pkt.Words) (written : (pktWritepacket host pkt).1 = 0) :
    readPacket (pktWritepacket host pkt).2 = some (pkt.header, pkt.msgs.zipIdx.map fun (msg, index) =>
      { msg.shown (host.date index msg) (pktBody host msg) with
        date := (host.date index msg).take 10 ++ msg.nameto.val.take 10 }) := by
  have size := pktPutpktheader_length host pkt
  have enough : pkt.msgs.length < (pktPutpktheader host pkt ++ msgsBytes host 0 pkt.msgs).length := by
    have long := msgsBytes_length host 0 pkt.msgs
    rw [List.length_append]
    omega
  rw [pktWritepacket_written host written, readPacket, List.drop_left' size, List.take_left' size,
    readMsgs_msgs host enough, Option.map_some, readPktHeader_header host pkt words]
  apply congrArg some
  apply congrArg (Prod.mk pkt.header)
  apply List.map_congr_left
  rintro ⟨msg, index⟩ member
  obtain ⟨orig, dest, cost⟩ := words.msgs msg (List.fst_mem_of_mem_zipIdx member)
  obtain ⟨whole, length⟩ := timeStringMsghdr_text host.localtime (host.clock index) msg.time
  exact readMsg_header msg (host.date index msg) orig dest cost length whole (pktBody host msg)

/-- A packet is read back where each name of an addressee is the second half of its date, and no field is
overwritten only where there are no messages. -/
theorem packet_written (host : PktHost) (pkt : Packet) (words : pkt.Words)
    (written : (pktWritepacket host pkt).1 = 0) :
    ((pkt.Recovered host (pktWritepacket host pkt).2 ∧ pkt.Undisturbed host) ↔ pkt.msgs = []) ∧
      (pkt.Recovered host (pktWritepacket host pkt).2 ↔
        ∀ one ∈ pkt.msgs.zipIdx, one.1.NamedAfter (host.date one.2 one.1)) := by
  have recovered : pkt.Recovered host (pktWritepacket host pkt).2 ↔
      ∀ one ∈ pkt.msgs.zipIdx, one.1.NamedAfter (host.date one.2 one.1) := by
    rw [Packet.Recovered, packet_read words written, Packet.messages, Option.some_inj, Prod.mk.injEq,
      List.map_inj_left, and_iff_right rfl]
    apply forall₂_congr
    rintro ⟨msg, index⟩ -
    obtain ⟨-, length⟩ := timeStringMsghdr_text host.localtime (host.clock index) msg.time
    exact readMsg_recovered msg (host.date index msg) (pktBody host msg) length
  refine ⟨⟨?_, ?_⟩, recovered⟩
  · rintro ⟨-, -, undisturbed⟩
    cases messages : pkt.msgs with
    | nil => rfl
    | cons msg rest =>
      have first : (msg, 0) ∈ pkt.msgs.zipIdx := by
        rw [messages, List.zipIdx_cons]
        exact List.mem_cons_self
      exact absurd (undisturbed (msg, 0) first .date) (msgHeader_disturbed msg _)
  · intro none
    refine ⟨recovered.mpr ?_, pktHeader_undisturbed host pkt, ?_⟩
    · rw [none, List.zipIdx_nil]
      exact fun one member => absurd member List.not_mem_nil
    · rw [none, List.zipIdx_nil]
      exact fun one member => absurd member List.not_mem_nil

/-- A system at noon of the first day of the year 2000. -/
def noonHost : PktHost where
  localtime := fun _ => { wday := 6, hour := 12, min := 34, year := 100, mon := 0, mday := 1, sec := 56 }
  gmtoffset := 0
  now := 946729696
  clock := fun _ => 946729696
  fwrite := fun _ => true
  bannerver := ⟨ascii "binkleyforce 0.27/linux", by decide⟩

/-- A packet without messages, as it is sent to ask for mail. -/
def emptyPacket : Packet where
  orig := { zone := 2, net := 5020, node := 1398, point := 11 }
  dest := { zone := 2, net := 5020, node := 400 }
  baud := 0
  password := ⟨ascii "secret", by decide⟩
  msgs := []

/-- It is read back, and none of its fields is overwritten. -/
theorem empty_packet_written : emptyPacket.Recovered noonHost (pktWritepacket noonHost emptyPacket).2 ∧
    emptyPacket.Undisturbed noonHost := by
  have words : emptyPacket.Words := ⟨by unfold Faddr.Words; decide, by unfold Faddr.Words; decide,
    fun msg member => absurd member List.not_mem_nil⟩
  exact (packet_written noonHost emptyPacket words rfl).1.mpr rfl

/-- A message to a name of two letters. -/
def shortMessage : Message where
  attr := 0x0001
  cost := 0
  time := 946729696
  orig := { zone := 2, net := 5020, node := 1398 }
  dest := { zone := 2, net := 5020, node := 400 }
  namefrom := ⟨ascii "Bob", by decide⟩
  nameto := ⟨ascii "Al", by decide⟩
  subject := ⟨ascii "Hello", by decide⟩
  text := some ⟨ascii "Hi", by decide⟩
  tagline := none
  tearline := none
  origin := none

/-- Of its date the time is lost, and the name stands there instead. -/
theorem message_date_lost :
    let pkt : Packet := { emptyPacket with msgs := [shortMessage] }
    let written := pktWritepacket noonHost pkt
    written.1 = 0 ∧ ¬ pkt.Recovered noonHost written.2 ∧ ¬ pkt.Undisturbed noonHost ∧
      noonHost.date 0 shortMessage = ascii "01 Jan 00  12:34:56" ∧
      (readPacket written.2).map (fun read => read.2.map MessageRead.date) = some [ascii "01 Jan 00 Al"] := by
  refine ⟨rfl, ?_, ?_, by decide, by decide +kernel⟩
  · unfold Packet.Recovered
    decide +kernel
  · rintro ⟨-, undisturbed⟩
    exact msgHeader_disturbed shortMessage _ (undisturbed (shortMessage, 0) List.mem_cons_self .date)

end Binkleyforce
