import Binkleyforce.Emsi.Escapes
import Binkleyforce.Emsi.Packet

/-!
# Reading a packet that was written

What `get_field` makes of each kind of field `emsi_createdat` writes, and what the parser
is left with behind the data for `{EMSI}`.
-/

namespace Binkleyforce

/-- Behind a field something else stands than what closes it. -/
def Follows (close : UInt8) (rest : Bytes) : Prop := rest.head? ≠ some close

/-- A field may follow. -/
theorem follows_field (locale : Locale) (value rest : Bytes) :
    Follows 125 (emsiField locale value ++ rest) := nofun

/-- A text in braces may follow. -/
theorem follows_braced (content rest : Bytes) : Follows 125 (braced content ++ rest) := nofun

/-- Fields in brackets may follow. -/
theorem follows_bracketFields (locale : Locale) (texts : List Bytes) (rest : Bytes) :
    Follows 125 (bracketFields locale texts ++ rest) := nofun

/-- Codes may follow. -/
theorem follows_codes (text rest : Bytes) : Follows 125 (closeCodes text ++ rest) := nofun

/-- A text in which nothing is escaped. -/
def PlainText (text : Bytes) : Prop :=
  ∀ char ∈ text, 32 ≤ char ∧ char ≤ 126 ∧ char ≠ 92 ∧ char ≠ 93 ∧ char ≠ 125

instance (text : Bytes) : Decidable (PlainText text) :=
  List.decidableBAll (fun char => 32 ≤ char ∧ char ≤ 126 ∧ char ≠ 92 ∧ char ≠ 93 ∧ char ≠ 125) text

/-- The writer leaves such a text as it is. -/
theorem addStr_plainText (locale : Locale) {text : Bytes} (plain : PlainText text) :
    addStr locale text = text := by
  induction text with
  | nil => rfl
  | cons char rest later =>
    obtain ⟨above, below, _, bracket, brace⟩ := plain char List.mem_cons_self
    rw [addStr_plain rest (locale.ascii char above below) bracket brace,
      later fun one member => plain one (List.mem_cons_of_mem char member)]

/-- So does the reader. -/
theorem unescape_plainText {close : UInt8} {text : Bytes} (closes : close = 93 ∨ close = 125)
    (plain : PlainText text) : unescape close text = text := by
  induction text with
  | nil => rfl
  | cons char rest later =>
    obtain ⟨_, _, slash, bracket, brace⟩ := plain char List.mem_cons_self
    have other : char ≠ close := by
      obtain rfl | rfl := closes
      · exact bracket
      · exact brace
    rw [unescape_plain rest other slash,
      later fun one member => plain one (List.mem_cons_of_mem char member)]

/-- Nothing is to be doubled in it. -/
theorem doubled_plainText {close : UInt8} {text : Bytes} (closes : close = 93 ∨ close = 125)
    (plain : PlainText text) : Doubled close text := by
  induction text with
  | nil => trivial
  | cons char rest later =>
    obtain ⟨_, _, _, bracket, brace⟩ := plain char List.mem_cons_self
    have other : char ≠ close := by
      obtain rfl | rfl := closes
      · exact bracket
      · exact brace
    exact (doubled_cons rest other).mpr
      (later fun one member => plain one (List.mem_cons_of_mem char member))

/-- It is a C string. -/
theorem cstring_plainText {text : Bytes} (plain : PlainText text) : cstring text = text := by
  refine cstring_whole text fun char member => ?_
  rintro rfl
  exact absurd (plain 0 member).1 (by decide)

/-- Two such texts in sequence are one. -/
theorem PlainText.append {first second : Bytes} (left : PlainText first) (right : PlainText second) :
    PlainText (first ++ second) := by
  intro char member
  exact (List.mem_append.mp member).elim (left char) (right char)

/-- A text of one character. -/
theorem plainText_one (char : UInt8) (plain : 32 ≤ char ∧ char ≤ 126 ∧ char ≠ 92 ∧ char ≠ 93 ∧ char ≠ 125) :
    PlainText [char] :=
  List.forall_mem_singleton.mpr plain

/-! ## Fields in braces -/

/-- A text in braces is read up to its end. -/
theorem takeField_braced (state : EmsiState) (content rest : Bytes) (doubled : Doubled 125 content)
    (follows : Follows 125 rest) :
    takeField state (braced content ++ rest) 123 125 = .ok (cstring (unescape 125 content), rest) := by
  unfold takeField braced
  rw [List.cons_append, List.append_assoc, List.singleton_append, getField_doubled content rest doubled follows (by decide) (by decide)]

/-- A value in braces. -/
theorem takeField_field (locale : Locale) (state : EmsiState) (value rest : Bytes)
    (follows : Follows 125 rest) :
    takeField state (emsiField locale value ++ rest) 123 125 = .ok (cstring (seen locale value), rest) :=
  takeField_braced state (addStr locale value) rest (doubled_addStr locale (.inr rfl) value) follows

/-- A text between the braces that needs no escapes. -/
theorem takeField_plain (state : EmsiState) {text : Bytes} (rest : Bytes) (plain : PlainText text)
    (follows : Follows 125 rest) :
    takeField state (braced text ++ rest) 123 125 = .ok (text, rest) := by
  rw [takeField_braced state text rest (doubled_plainText (.inr rfl) plain) follows,
    unescape_plainText (.inr rfl) plain, cstring_plainText plain]

/-- The codes are read without the comma the brace was written over. -/
theorem takeField_codes (state : EmsiState) {text : Bytes} (rest : Bytes) (plain : PlainText text)
    (follows : Follows 125 rest) :
    takeField state (closeCodes text ++ rest) 123 125 =
      .ok (if text.getLast? = some 44 then text.dropLast else text, rest) := by
  unfold closeCodes
  by_cases comma : text.getLast? = some 44
  · rw [if_pos comma, if_pos comma]
    exact takeField_plain state rest
      (fun char member => plain char (List.mem_of_mem_dropLast member)) follows
  · rw [if_neg comma, if_neg comma]
    exact takeField_plain state rest plain follows

/-! ## Fields in brackets -/

/-- The reader goes through two texts in sequence, where a character stands between them that is
not part of a code. -/
theorem unescape_append {close sep : UInt8} {first tail : Bytes} (left : Doubled close first)
    (right : Doubled close tail) (slash : sep ≠ 92) (plain : xdigit sep = none) (other : sep ≠ close)
    (backslash : close ≠ 92) (hex : xdigit close = none) :
    unescape close (first ++ sep :: tail) = unescape close first ++ sep :: unescape close tail := by
  have whole := fieldBody_doubled close (first ++ sep :: tail)
    (Doubled.append left ((doubled_cons tail other).mpr right)) close [] backslash hex hex
  have second := fieldBody_doubled close (sep :: tail) ((doubled_cons tail other).mpr right) close []
    backslash hex hex
  have split_ := fieldBody_doubled close first left sep (tail ++ [close]) slash plain hex
  have ends := fieldBody_end close [] nofun
  rw [List.append_assoc, List.cons_append, split_, ← List.cons_append, second, ends] at whole
  simp only [Option.map_some, List.append_nil, Option.some.injEq, Prod.mk.injEq, and_true] at whole
  rw [← whole, unescape_plain tail other slash]

/-- Values in brackets, as the reader of the braces leaves them. -/
theorem unescape_brackets (locale : Locale) (texts : List Bytes) :
    Doubled 125 (texts.flatMap fun text => bracketed (addStr locale text)) ∧
      unescape 125 (texts.flatMap fun text => bracketed (addStr locale text)) =
        texts.flatMap fun text => bracketed (seen locale text) := by
  induction texts with
  | nil => exact ⟨trivial, rfl⟩
  | cons text texts later =>
    have shape : ((text :: texts).flatMap fun text => bracketed (addStr locale text)) =
        91 :: (addStr locale text ++ 93 :: texts.flatMap fun text => bracketed (addStr locale text)) := by
      rw [List.flatMap_cons, bracketed, List.cons_append, List.append_assoc]
      rfl
    have doubled := doubled_addStr locale (.inr rfl) text
    rw [shape]
    constructor
    · exact (doubled_cons _ (by decide)).mpr (doubled.append ((doubled_cons _ (by decide)).mpr later.1))
    · rw [unescape_plain _ (by decide) (by decide),
        unescape_append doubled later.1 (by decide) (by decide) (by decide) (by decide) (by decide),
        later.2, List.flatMap_cons, bracketed, List.cons_append, List.append_assoc]
      rfl

/-- Fields in brackets are found in the text between the braces. -/
theorem takeField_brackets (locale : Locale) (state : EmsiState) (texts : List Bytes) (rest : Bytes)
    (follows : Follows 125 rest) :
    takeField state (bracketFields locale texts ++ rest) 123 125 =
      .ok (cstring (texts.flatMap fun text => bracketed (seen locale text)), rest) := by
  obtain ⟨doubled, read⟩ := unescape_brackets locale texts
  rw [bracketFields, takeField_braced state _ rest doubled follows, read]

/-- A value in brackets is found in what is left of them. -/
theorem takeField_bracketed (locale : Locale) (state : EmsiState) (value rest : Bytes)
    (follows : Follows 93 rest) :
    takeField state (bracketed (seen locale value) ++ rest) 91 93 = .ok (seenNested locale value, rest) := by
  unfold takeField bracketed
  rw [List.cons_append, List.append_assoc, List.singleton_append, getField_doubled _ rest (doubled_seen locale value) follows (by decide) (by decide)]
  rfl

/-! ## The data for `{EMSI}` -/

/-- The addresses of a packet stand between the braces as they do in the packet. -/
theorem doubled_addrsText (locale : Locale) (localaddrs : List LinkAddr) :
    Doubled 125 (addrsText locale localaddrs) := by
  induction localaddrs with
  | nil => trivial
  | cons addr rest later =>
    have one := doubled_addStr locale (.inr rfl) (ftnAddrstr addr.addr)
    cases rest with
    | nil => exact one
    | cons next rest => exact one.append ((doubled_cons _ (by decide)).mpr later)

/-- What the parser sees of the addresses. -/
def addrsSeen (locale : Locale) (localaddrs : List LinkAddr) : Bytes :=
  cstring (unescape 125 (addrsText locale localaddrs))

/-- The text of some codes is plain. -/
theorem plainText_codes (locale : Locale) (written : List (Bool × String))
    (names : ∀ name ∈ written.map Prod.snd, PlainText (ascii name)) :
    PlainText (codesText locale written) := by
  intro char member
  obtain ⟨⟨set, name⟩, isCode, inCode⟩ := List.mem_flatMap.mp member
  have plain := names name (List.mem_map.mpr ⟨_, isCode, rfl⟩)
  dsimp only at inCode
  split at inCode
  · rw [addStr_plainText locale plain] at inCode
    exact plain char inCode
  · cases inCode

/-- A character that is not escaped. -/
def plainChar (char : Char) : Bool :=
  32 ≤ char.toNat && char.toNat ≤ 126 && char.toNat != 92 && char.toNat != 93 && char.toNat != 125

/-- Its code is not escaped. -/
theorem plainChar_code {char : Char} (plain : plainChar char = true) : PlainText [UInt8.ofNat char.toNat] := by
  simp only [plainChar, Bool.and_eq_true, decide_eq_true_eq, bne_iff_ne] at plain
  obtain ⟨⟨⟨⟨low, high⟩, slash⟩, bracket⟩, brace⟩ := plain
  have read : (UInt8.ofNat char.toNat).toNat = char.toNat := by
    rw [UInt8.toNat_ofNat']
    omega
  apply plainText_one
  simp only [UInt8.le_iff_toNat_le, ne_eq, ← UInt8.toNat_inj, read]
  exact ⟨low, high, slash, bracket, brace⟩

/-- A name of such characters is plain. -/
theorem plainText_ascii {name : String} (plain : name.toList.all plainChar = true) : PlainText (ascii name) := by
  intro code member
  obtain ⟨char, inName, rfl⟩ := List.mem_map.mp member
  exact plainChar_code (List.all_eq_true.mp plain char inName) _ List.mem_cons_self

/-- The names of the link codes are. -/
theorem Linkcodes.plain (codes : Linkcodes) : ∀ name ∈ codes.written.map Prod.snd, PlainText (ascii name) := by
  have all : (((Linkcodes.written {}).map Prod.snd).all fun name => name.toList.all plainChar) = true := by decide
  exact fun name member => plainText_ascii (List.all_eq_true.mp all name member)

/-- So are those of the compatibility codes. -/
theorem Compcodes.plain (codes : Compcodes) : ∀ name ∈ codes.written.map Prod.snd, PlainText (ascii name) := by
  have all : (((Compcodes.written {}).map Prod.snd).all fun name => name.toList.all plainChar) = true := by decide
  exact fun name member => plainText_ascii (List.all_eq_true.mp all name member)

/-- The digits of a number are plain. -/
theorem plainText_digits {text : Bytes} (digits : ∀ char ∈ text, isdigit char = true) : PlainText text := by
  intro char member
  have digit := digits char member
  simp only [isdigit, Bool.and_eq_true, decide_eq_true_eq, UInt8.le_iff_toNat_le] at digit
  simp only [UInt8.le_iff_toNat_le, ne_eq, ← UInt8.toNat_inj]
  obtain ⟨low, high⟩ := digit
  have low : 48 ≤ char.toNat := low
  have high : char.toNat ≤ 57 := high
  exact ⟨show 32 ≤ char.toNat by omega, show char.toNat ≤ 126 by omega, show char.toNat ≠ 92 by omega,
    show char.toNat ≠ 93 by omega, show char.toNat ≠ 125 by omega⟩

/-- So is the text of the numbered flags. -/
theorem plainText_nflags (localaddrs : List LinkAddr) : PlainText (nflagsText localaddrs) := by
  have names : ∀ flag : NFlag, PlainText flag.name := by
    intro flag
    cases flag <;> exact plainText_ascii (by decide)
  intro char member
  obtain ⟨⟨addr, number⟩, _, inFlags⟩ := List.mem_flatMap.mp member
  obtain ⟨flag, _, inFlag⟩ := List.mem_flatMap.mp inFlags
  split at inFlag
  · exact ((names flag).append (plainText_digits (printNat_isdigit number))).append
      (plainText_one 44 (by decide)) char inFlag
  · cases inFlag

/-- The link codes and flags of a packet. -/
def linkcodesText (locale : Locale) (localaddrs : List LinkAddr) (emsi : Emsi) : Bytes :=
  codesText locale emsi.linkcodes.written ++ nflagsText localaddrs

/-- A step that is taken is followed by the next one. -/
theorem andThen_ok {first second : EmsiStep} {state later : EmsiState} {str left : Bytes}
    (taken : first state str = .ok (later, left)) : first.andThen second state str = second later left := by
  unfold EmsiStep.andThen
  rw [taken]

/-- The step of a field that is found. -/
theorem fieldStep_ok {start close : UInt8} {use : Bytes → EmsiState → EmsiState} {state : EmsiState}
    {str text left : Bytes} (found : takeField state str start close = .ok (text, left)) :
    fieldStep start close use state str = .ok (use text state, left) := by
  unfold fieldStep
  rw [found]

/-- The record when the addresses are read. -/
def readAddrs (locale : Locale) (localaddrs : List LinkAddr) (state : EmsiState) : EmsiState :=
  parseAddrs (addrsSeen locale localaddrs) (state.update fun emsi => { emsi with haveEmsi := true })

/-- The link codes as they stand between the braces. -/
def closedCodes (text : Bytes) : Bytes := if text.getLast? = some 44 then text.dropLast else text

/-- The texts behind the codes, with their defaults. -/
def Emsi.mailer (emsi : Emsi) : List Bytes :=
  [if emsi.mPid.isEmpty then ascii "fe" else emsi.mPid,
    if emsi.mName.isEmpty then ascii "BinkleyForce" else emsi.mName,
    if emsi.mVer.isEmpty then ascii "X.XXX" else emsi.mVer,
    if emsi.mReg.isEmpty then ascii "Freeware" else emsi.mReg]

/-- The record behind the codes. -/
def readCodes (locale : Locale) (localaddrs : List LinkAddr) (emsi : Emsi) (state : EmsiState) :
    EmsiState :=
  useCompcodes (closedCodes (codesText locale emsi.compcodes.written))
    (useLinkcodes (closedCodes (linkcodesText locale localaddrs emsi))
      (usePasswd (cstring (seen locale emsi.passwd)) state))

/-- The record behind the data for `{EMSI}`. -/
def readEmsi (locale : Locale) (localaddrs : List LinkAddr) (emsi : Emsi) (state : EmsiState) :
    EmsiState :=
  useMReg (cstring (seen locale (if emsi.mReg.isEmpty then ascii "Freeware" else emsi.mReg)))
    (useMVer (cstring (seen locale (if emsi.mVer.isEmpty then ascii "X.XXX" else emsi.mVer)))
      (useMName (cstring (seen locale (if emsi.mName.isEmpty then ascii "BinkleyForce" else emsi.mName)))
        (useMPid (cstring (seen locale (if emsi.mPid.isEmpty then ascii "fe" else emsi.mPid)))
          (readCodes locale localaddrs emsi state))))

/-- The parser takes the data for `{EMSI}` that were written. -/
theorem parseEmsi_created (locale : Locale) (localaddrs : List LinkAddr) (emsi : Emsi)
    (state : EmsiState) (rest : Bytes) (follows : Follows 125 rest) :
    ∃ data, createEmsi locale localaddrs emsi ++ rest = emsiField locale (ascii "EMSI") ++ data ∧
      Follows 125 data ∧
      parseEmsi state data =
        if (readAddrs locale localaddrs state).remoteaddrs.isEmpty then
          .error (readAddrs locale localaddrs state)
        else .ok (readEmsi locale localaddrs emsi (readAddrs locale localaddrs state), rest) := by
  have links : PlainText (linkcodesText locale localaddrs emsi) :=
    (plainText_codes locale _ emsi.linkcodes.plain).append (plainText_nflags localaddrs)
  have comps := plainText_codes locale _ emsi.compcodes.plain
  refine ⟨braced (addrsText locale localaddrs) ++ (emsiField locale emsi.passwd ++
    (closeCodes (linkcodesText locale localaddrs emsi) ++
    (closeCodes (codesText locale emsi.compcodes.written) ++
    (emsiField locale (if emsi.mPid.isEmpty then ascii "fe" else emsi.mPid) ++
    (emsiField locale (if emsi.mName.isEmpty then ascii "BinkleyForce" else emsi.mName) ++
    (emsiField locale (if emsi.mVer.isEmpty then ascii "X.XXX" else emsi.mVer) ++
    (emsiField locale (if emsi.mReg.isEmpty then ascii "Freeware" else emsi.mReg) ++ rest))))))),
    ?_, nofun, ?_⟩
  · simp only [createEmsi, linkcodesText, List.append_assoc]
  · unfold parseEmsi
    rw [andThen_ok (fieldStep_ok (takeField_braced _ _ _ (doubled_addrsText locale localaddrs) (follows_field _ _ _)))]
    change needAddrs.andThen _ (readAddrs locale localaddrs state) _ = _
    by_cases none_ : (readAddrs locale localaddrs state).remoteaddrs.isEmpty = true
    · rw [if_pos none_]
      unfold EmsiStep.andThen needAddrs
      rw [if_pos none_]
    · have some_ : ∀ str, needAddrs (readAddrs locale localaddrs state) str =
          .ok (readAddrs locale localaddrs state, str) := by
        intro str
        unfold needAddrs
        rw [if_neg none_]
      rw [if_neg none_, andThen_ok (some_ _),
        andThen_ok (fieldStep_ok (takeField_field locale _ _ _ (follows_codes _ _))),
        andThen_ok (fieldStep_ok (takeField_codes _ _ links (follows_codes _ _))),
        andThen_ok (fieldStep_ok (takeField_codes _ _ comps (follows_field _ _ _))),
        andThen_ok (fieldStep_ok (takeField_field locale _ _ _ (follows_field _ _ _))),
        andThen_ok (fieldStep_ok (takeField_field locale _ _ _ (follows_field _ _ _))),
        andThen_ok (fieldStep_ok (takeField_field locale _ _ _ (follows_field _ _ _))),
        fieldStep_ok (takeField_field locale _ _ _ follows)]
      rfl

end Binkleyforce
