import Binkleyforce.Util.FileNames
import Binkleyforce.Util.Scan

/-!
# Addresses as text

The parser of the Fidonet form goes from separator to separator: the characters of a part are passed
over, and the part is read where its separator stands. One equation says this for each separator, and
the printed text of an address is read back along them.
-/

namespace Binkleyforce

/-! ## The parts of an address -/

/-- A character a part may have: a digit, or the wildcard where it is allowed. -/
def addrChar (wildcard : Bool) (char : UInt8) : Bool := isdigit char || (wildcard && char == 42)

/-- A small number is read as it is. -/
theorem atoi_small {text : Bytes} (small : leadingNumber text < 2 ^ 31) : atoi text = leadingNumber text := by
  unfold atoi
  rw [Int.min_eq_left (by omega)]
  exact Int.bmod_eq_of_le (by omega) (by omega)

section Parts

variable {wildcard : Bool} {char : UInt8} {run rest : Bytes}

/-- A separator is no character of a part. -/
theorem addrChar_plain (part : addrChar wildcard char = true) (separator : UInt8)
    (other : addrChar true separator = false) : char ≠ separator := by
  rintro rfl
  unfold addrChar at part other
  rw [Bool.true_and, Bool.or_eq_false_iff] at other
  rw [other.1, other.2, Bool.and_false, Bool.or_false] at part
  cases part

/-- A part is there where one of its characters stands. -/
theorem addrPart_isSome : (addrPart wildcard (char :: rest)).isSome = addrChar wildcard char := by
  simp only [addrPart, addrChar]
  cases isdigit char with
  | true => rfl
  | false =>
    cases wildcard && char == 42 with
    | true => rfl
    | false => rfl

theorem addrPart_none (other : addrChar wildcard char = false) : addrPart wildcard (char :: rest) = none := by
  rw [← Option.not_isSome_iff_eq_none, addrPart_isSome, other]
  exact Bool.false_ne_true

/-- A part that is there begins with one of its characters. -/
theorem addrPart_some {s : Bytes} {value : Int} (part : addrPart wildcard s = some value) :
    ∃ char rest, s = char :: rest ∧ addrChar wildcard char = true := by
  cases s with
  | nil => cases part
  | cons char rest =>
    refine ⟨char, rest, rfl, ?_⟩
    rw [← @addrPart_isSome wildcard char rest, part, Option.isSome_some]

/-- A number is read as far as its digits go. -/
theorem addrPart_digits (digits : ∀ char ∈ run, isdigit char = true) (filled : run ≠ [])
    (ends : ∀ char ∈ rest.head?, isdigit char = false) :
    addrPart wildcard (run ++ rest) = some (addrstr2int run) := by
  have whole := (takeWhile_run isdigit run rest digits ends).1
  have alone := (takeWhile_run isdigit run [] digits nofun).1
  rw [List.append_nil] at alone
  have number : addrstr2int (run ++ rest) = addrstr2int run := by
    unfold addrstr2int atoi leadingNumber
    rw [whole, alone]
  rw [← number]
  obtain ⟨first, later, rfl⟩ := List.exists_cons_of_ne_nil filled
  rw [List.cons_append, addrPart, if_pos (digits first List.mem_cons_self)]

/-- The wildcard. -/
theorem addrPart_wildcard : addrPart true (42 :: rest) = some (-1) := rfl

end Parts

/-- A number an address may have, or the wildcard where it is allowed. -/
def AddrValue (wildcard : Bool) (value : Int) : Prop :=
  (0 ≤ value ∧ value ≤ 0x7fff) ∨ (wildcard = true ∧ value = -1)

/-- A number in range is printed in digits. -/
theorem addrint2str_number {value : Int} (range : 0 ≤ value ∧ value ≤ 0x7fff) :
    addrint2str value = printNat value.toNat := by
  obtain ⟨number, rfl⟩ := Int.eq_ofNat_of_zero_le range.1
  have digits : (toString (number : Int)).toList = Nat.toDigits 10 number := by
    change (Int.repr (Int.ofNat number)).toList = _
    unfold Int.repr
    simp [Nat.repr]
  unfold addrint2str printNat ascii
  rw [if_neg (by omega), if_neg (by omega), if_neg (by omega), digits, Int.toNat_natCast]

section Values

variable {wildcard : Bool} {value : Int}

/-- What is printed for a part are characters of a part. -/
theorem addrint2str_chars (written : AddrValue wildcard value) :
    ∀ char ∈ addrint2str value, addrChar wildcard char = true := by
  rcases written with range | ⟨rfl, rfl⟩
  · rw [addrint2str_number range]
    intro char member
    rw [addrChar, printNat_isdigit _ char member, Bool.true_or]
  · decide +kernel

/-- A part is printed in at most five characters. -/
theorem addrint2str_length (written : AddrValue wildcard value) : (addrint2str value).length ≤ 5 := by
  rcases written with range | ⟨rfl, rfl⟩
  · rw [addrint2str_number range, printNat, List.length_map, Nat.length_toDigits_le_iff (by decide) (by decide)]
    omega
  · decide

/-- What is printed for a part reads as its value. -/
theorem addrPart_printed (written : AddrValue wildcard value) {rest : Bytes}
    (ends : ∀ char ∈ rest.head?, isdigit char = false) :
    addrPart wildcard (addrint2str value ++ rest) = some value := by
  rcases written with range | ⟨rfl, rfl⟩
  · have number : leadingNumber (printNat value.toNat) = value.toNat := by
      have read := leadingNumber_printNat value.toNat [] nofun
      rwa [List.append_nil] at read
    have kept : addrstr2int (printNat value.toNat) = value := by
      unfold addrstr2int
      rw [atoi_small (by omega), number]
      simp only
      rw [if_neg (by omega), if_neg (by omega)]
      omega
    rw [addrint2str_number range, addrPart_digits (printNat_isdigit _) (printNat_ne_nil _) ends, kept]
  · exact addrPart_wildcard

end Values

/-! ## From separator to separator -/

section Fidonet

variable {wildcard : Bool} (p s : Bytes) (got : GotParts) (addr : Faddr)

/-- The characters of a part are passed over. -/
theorem fidoLoop_run {run : Bytes} (part : ∀ char ∈ run, addrChar wildcard char = true) :
    addrparseFidoLoop wildcard (run ++ p) s got addr = addrparseFidoLoop wildcard p s got addr := by
  induction run with
  | nil => rfl
  | cons char run inductionHypothesis =>
    have here := part char List.mem_cons_self
    rw [List.cons_append, addrparseFidoLoop, if_neg (by simpa using addrChar_plain here 58 rfl),
      if_neg (by simpa using addrChar_plain here 47 rfl), if_neg (by simpa using addrChar_plain here 46 rfl),
      if_neg (by simpa using addrChar_plain here 64 rfl), ← addrChar, if_pos here]
    exact inductionHypothesis fun later member => part later (List.mem_cons_of_mem _ member)

variable {s} {value : Int} (read : addrPart wildcard s = some value)

include read in
/-- A part begins with none of the separators. -/
theorem addrPart_plain (separator : UInt8) (other : addrChar true separator = false) :
    (s.head? == some separator) = false := by
  obtain ⟨char, rest, rfl, part⟩ := addrPart_some read
  simpa using addrChar_plain part separator other

include read in
/-- A part before a colon is the zone. -/
theorem fidoLoop_zone : addrparseFidoLoop wildcard (58 :: p) s got addr =
    if got.zone then none
    else addrparseFidoLoop wildcard p p { got with zone := true } { addr with zone := value } := by
  rw [addrparseFidoLoop, if_pos (by decide), read]
  cases got.zone with
  | true => rfl
  | false => rfl

include read in
/-- A part before a slash is the net. -/
theorem fidoLoop_net : addrparseFidoLoop wildcard (47 :: p) s got addr =
    if got.net then none
    else addrparseFidoLoop wildcard p p { got with net := true } { addr with net := value } := by
  rw [addrparseFidoLoop, if_neg (by decide), if_pos (by decide), read, addrPart_plain read 47 rfl]
  cases got.net with
  | true => rfl
  | false => rfl

include read in
/-- A part before a point is the node. -/
theorem fidoLoop_node : addrparseFidoLoop wildcard (46 :: p) s got addr =
    if got.node then none
    else addrparseFidoLoop wildcard p p { got with node := true } { addr with node := value } := by
  rw [addrparseFidoLoop, if_neg (by decide), if_neg (by decide), if_pos (by decide), addrPart_plain read 47 rfl]
  simp only [Bool.false_eq_true, if_false, read, addrPart_plain read 46 rfl]
  cases got.node with
  | true => rfl
  | false => rfl

include read in
/-- What stands last is the node, or the point where the node was read. -/
theorem fidoEnd_part : addrparseFidoEnd wildcard s got addr =
    if got.zone && !got.net then none
    else if !got.node then some { addr with node := value }
    else if !got.point then some { addr with point := value }
    else none := by
  obtain ⟨char, rest, rfl, part⟩ := addrPart_some read
  unfold addrparseFidoEnd
  split
  · rfl
  · simp only
    rw [if_neg (by simpa using addrChar_plain part 47 rfl), if_neg (by simpa using addrChar_plain part 46 rfl), read]
    rfl

end Fidonet

/-- The parts of the internet form. -/
inductive InetKind
  | point
  | node
  | net
  | zone
  deriving DecidableEq, Repr

/-- The letter of a part. -/
def inetKind (letter : UInt8) : Option InetKind :=
  if letter == 112 || letter == 80 then some .point
  else if letter == 102 || letter == 70 then some .node
  else if letter == 110 || letter == 78 then some .net
  else if letter == 122 || letter == 90 then some .zone
  else none

/-- The domain is what follows the zone and a point. -/
def inetDomain (p domain : Bytes) : Bytes :=
  if p.head? == some 46 && p.tail ≠ [] then strnxcpy (stringPrintable p.tail) domainSize else domain

/-- What a part of a kind does to the address. -/
def inetStep (p : Bytes) (got : GotParts) (addr : Faddr) (val : Int) : InetKind → Option (Bool × GotParts × Faddr)
  | .point => if got.point then none else some (false, { got with point := true }, { addr with point := val })
  | .node =>
    if got.net || got.zone || got.node then none
    else some (false, { got with node := true }, { addr with node := val })
  | .net =>
    if got.node && !got.zone && !got.net then some (false, { got with net := true }, { addr with net := val })
    else none
  | .zone =>
    if got.node && got.net && !got.zone then
      some (true, { got with zone := true }, { addr with zone := val, domain := inetDomain p addr.domain })
    else none

/-- A part is its letter and its number. -/
theorem addrInetPart_step (p : Bytes) (letter : UInt8) (digits : Bytes) (got : GotParts) (addr : Faddr) :
    addrInetPart p (letter :: digits) got addr =
      (addrPart false digits).bind fun val => (inetKind letter).bind fun kind => inetStep p got addr val kind := by
  unfold addrInetPart inetKind
  simp only
  cases addrPart false digits with
  | none => rfl
  | some val =>
    simp only [Option.bind_some]
    split
    · rfl
    · split
      · rfl
      · split
        · rfl
        · split
          · rfl
          · rfl

/-- At a point the part before it is read. -/
theorem inetLoop_part {run : Bytes} (plain : ∀ char ∈ run, char ≠ 46) (p : Bytes) (got : GotParts) (addr : Faddr) :
    addrparseInetLoop (run ++ 46 :: p) (run ++ 46 :: p) got addr =
      match addrInetPart (46 :: p) (run ++ 46 :: p) got addr with
      | none => none
      | some (true, _, addr) => some addr
      | some (false, got, addr) => addrparseInetLoop p p got addr := by
  rw [inetLoop_run plain, addrparseInetLoop]
  exact if_pos (by decide)

/-- At the end the last part is read. -/
theorem inetLoop_last {run : Bytes} (plain : ∀ char ∈ run, char ≠ 46) (got : GotParts) (addr : Faddr) :
    addrparseInetLoop run run got addr = (addrInetPart [] run got addr).map fun part => part.2.2 := by
  have passed := inetLoop_run plain [] run got addr
  rw [List.append_nil] at passed
  rw [passed, addrparseInetLoop]

/-- The text from the domain on: nothing, or what follows the `@`. -/
def domainText (separator : UInt8) : Option Bytes → Bytes
  | none => []
  | some domain => separator :: domain

/-- The domain an address takes from its text. -/
def domainRead : Option Bytes → Bytes
  | none => []
  | some domain => strnxcpy (stringPrintable domain) domainSize

/-- The domain behind the zone. -/
theorem inetDomain_text (domain : Option Bytes) : inetDomain (domainText 46 domain) [] = domainRead domain := by
  cases domain with
  | none => rfl
  | some domain =>
    cases domain with
    | nil => rfl
    | cons char domain => rfl

/-- Where the numbers end, the last part is read. -/
theorem fidoLoop_end (wildcard : Bool) (s : Bytes) (got : GotParts) (addr : Faddr) (domain : Option Bytes) :
    addrparseFidoLoop wildcard (domainText 64 domain) s got addr =
      (addrparseFidoEnd wildcard s got addr).map fun done => (done, domainText 64 domain) := by
  cases domain with
  | none => rw [domainText, addrparseFidoLoop]
  | some domain => exact fidoLoop_domain wildcard domain s got addr

/-- The parse of the Fidonet form up to the domain. -/
theorem ftnAddrparseFido_of_loop {wildcard : Bool} {addr done : Faddr} {s : Bytes} {domain : Option Bytes}
    (clear : done.domain = [])
    (loop : addrparseFidoLoop wildcard s s {} addr = some (done, domainText 64 domain)) :
    ftnAddrparseFido addr s wildcard = some { done with domain := domainRead domain } := by
  have same : { done with domain := [] } = done := by
    rw [← clear]
  unfold ftnAddrparseFido
  rw [loop, Option.map_some]
  cases domain with
  | none => exact congrArg some same.symm
  | some domain =>
    cases domain with
    | nil => exact congrArg some same.symm
    | cons char domain => rfl

/-! ## The printed text -/

/-- The point is left out where there is none. -/
def pointText (separator : UInt8) (point : Int) : Bytes := if point = 0 then [] else separator :: addrint2str point

/-- The domain is left out where there is none. -/
def printedDomain (domain : Bytes) : Option Bytes := if domain.isEmpty then none else some domain

/-- An address that fits its record: the numbers are in range, or wildcards of the Fidonet form, and the domain
is a string with room in its field. -/
structure Faddr.Fitting (wildcard : Bool) (addr : Faddr) : Prop where
  zone : AddrValue (wildcard && !addr.inetform) addr.zone
  net : AddrValue (wildcard && !addr.inetform) addr.net
  node : AddrValue (wildcard && !addr.inetform) addr.node
  point : AddrValue (wildcard && !addr.inetform) addr.point
  fits : addr.domain.length < domainSize
  whole : 0 ∉ addr.domain

/-- An address whose domain needs no quoting. -/
structure Faddr.Written (wildcard : Bool) (addr : Faddr) : Prop extends addr.Fitting wildcard where
  printable : ∀ char ∈ addr.domain, isprint char = true

/-- A printable character is no terminator. -/
theorem isprint_visible {char : UInt8} (printable : isprint char = true) : char ≠ 0 := by
  rintro rfl
  cases printable

/-- Printable characters are not quoted. -/
theorem stringPrintable_printed {text : Bytes} (printable : ∀ char ∈ text, isprint char = true) :
    stringPrintable text = text := by
  unfold stringPrintable
  induction text with
  | nil => rfl
  | cons char text inductionHypothesis =>
    rw [List.flatMap_cons, if_pos (printable char List.mem_cons_self),
      inductionHypothesis fun later member => printable later (List.mem_cons_of_mem _ member)]
    rfl

/-- A printable domain is copied as it is. -/
theorem domainRead_printed {domain : Bytes} (printable : ∀ char ∈ domain, isprint char = true)
    (fits : domain.length < domainSize) : domainRead (printedDomain domain) = domain := by
  unfold printedDomain
  cases domain with
  | nil => rfl
  | cons char domain =>
    rw [List.isEmpty_cons, if_neg Bool.false_ne_true, domainRead, stringPrintable_printed printable, strnxcpy,
      cstring_whole _ fun char member => isprint_visible (printable char member), List.take_of_length_le]
    omega

/-- There is room for the domain behind the numbers. -/
theorem addrDomain_printed {separator : String} {mark : UInt8} {text domain : Bytes}
    (one : ascii separator = [mark]) (visible : mark ≠ 0)
    (printable : ∀ char ∈ domain, isprint char = true) (fits : domain.length < domainSize)
    (room : text.length ≤ 27) :
    addrDomain separator text domain = text ++ domainText mark (printedDomain domain) := by
  have copied {text : Bytes} {room : Nat} (visible : ∀ char ∈ text, char ≠ 0) (length : text.length < room) :
      strnxcpy text room = text := by
    rw [strnxcpy, cstring_whole _ visible, List.take_of_length_le (by omega)]
  unfold addrDomain printedDomain
  unfold domainSize at fits
  cases domain with
  | nil => rw [List.isEmpty_nil, if_pos rfl, if_pos rfl, domainText, List.append_nil]
  | cons char domain =>
    have marked : strnxcat text (ascii separator) 80 = text ++ [mark] := by
      rw [strnxcat, one, copied (by simpa using visible)]
      unfold strnxcatRoom
      rw [List.length_singleton]
      omega
    have added : strnxcat (text ++ [mark]) (char :: domain) 80 = text ++ [mark] ++ char :: domain := by
      rw [strnxcat, copied fun char member => isprint_visible (printable char member)]
      unfold strnxcatRoom
      rw [List.length_append, List.length_singleton]
      omega
    rw [List.isEmpty_cons, if_neg Bool.false_ne_true, if_neg Bool.false_ne_true, marked, added, domainText,
      List.append_assoc, List.singleton_append]

section Printed

variable {wildcard : Bool} {addr : Faddr} (written : addr.Written wildcard)

include written in
/-- The text of the Fidonet form. -/
theorem ftnAddrstrFido_text : ftnAddrstrFido addr =
    addrint2str addr.zone ++ 58 :: (addrint2str addr.net ++ 47 :: (addrint2str addr.node ++
      (pointText 46 addr.point ++ domainText 64 (printedDomain addr.domain)))) := by
  have zone := addrint2str_length written.zone
  have net := addrint2str_length written.net
  have node := addrint2str_length written.node
  have point := addrint2str_length written.point
  have colon : ascii ":" = [58] := rfl
  have slash : ascii "/" = [47] := rfl
  have dot : ascii "." = [46] := rfl
  unfold ftnAddrstrFido pointText
  rw [colon, slash, dot, @addrDomain_printed "@" 64 _ _ rfl (by decide) written.printable
    written.fits]
  · by_cases direct : addr.point = 0
    · simp [direct]
    · simp [direct]
  · by_cases direct : addr.point = 0
    · simp [direct]
      omega
    · simp [direct]
      omega

include written in
/-- The text of the internet form. -/
theorem ftnAddrstrInet_text : ftnAddrstrInet addr =
    (if addr.point = 0 then [] else 112 :: (addrint2str addr.point ++ [46])) ++
      102 :: (addrint2str addr.node ++ 46 :: 110 :: (addrint2str addr.net ++ 46 :: 122 ::
        (addrint2str addr.zone ++ domainText 46 (printedDomain addr.domain)))) := by
  have zone := addrint2str_length written.zone
  have net := addrint2str_length written.net
  have node := addrint2str_length written.node
  have point := addrint2str_length written.point
  have first : ascii "p" = [112] := rfl
  have second : ascii "f" = [102] := rfl
  have third : ascii ".n" = [46, 110] := rfl
  have fourth : ascii ".z" = [46, 122] := rfl
  have dot : ascii "." = [46] := rfl
  unfold ftnAddrstrInet
  rw [first, second, third, fourth, dot, @addrDomain_printed "." 46 _ _ rfl (by decide) written.printable
    written.fits]
  · by_cases direct : addr.point = 0
    · simp [direct]
    · simp [direct]
  · by_cases direct : addr.point = 0
    · simp [direct]
      omega
    · simp [direct]
      omega

end Printed

/-! ## Reading back what was printed -/

/-- Parts of the Fidonet form keep to it. -/
theorem addrForm_run {wildcard : Bool} {run rest : Bytes} (part : ∀ char ∈ run, addrChar wildcard char = true)
    (later : addrForm wildcard rest false = some false) : addrForm wildcard (run ++ rest) false = some false := by
  induction run with
  | nil => exact later
  | cons char run inductionHypothesis =>
    have here := part char List.mem_cons_self
    rw [List.cons_append, addrForm]
    by_cases wild : char = 42
    · subst wild
      cases wildcard with
      | true => rfl
      | false => cases here
    · have digit : isdigit char = true := by
        unfold addrChar at here
        rwa [beq_eq_false_iff_ne.mpr wild, Bool.and_false, Bool.or_false] at here
      have other (letter : UInt8) (graphic : isdigit letter = false) : (char == letter) = false := by
        rw [beq_eq_false_iff_ne]
        rintro rfl
        rw [digit] at graphic
        cases graphic
      rw [if_neg (by simpa using wild), other 64 rfl, other 58 rfl, other 47 rfl, other 46 rfl, other 112 rfl,
        other 80 rfl, other 102 rfl, other 70 rfl, digit]
      exact inductionHypothesis fun later member => part later (List.mem_cons_of_mem _ member)

/-- A separator keeps to the Fidonet form. -/
theorem addrForm_separator {wildcard : Bool} {separator : UInt8} {rest : Bytes}
    (mark : separator = 58 ∨ separator = 47 ∨ separator = 46) :
    addrForm wildcard (separator :: rest) false = addrForm wildcard rest false := by
  rcases mark with rfl | rfl | rfl
  · rw [addrForm]
    rfl
  · rw [addrForm]
    rfl
  · rw [addrForm]
    rfl

/-- So does the end, or the domain. -/
theorem addrForm_domain (wildcard : Bool) (domain : Option Bytes) :
    addrForm wildcard (domainText 64 domain) false = some false := by
  cases domain with
  | none => rfl
  | some domain => rfl

/-- No number goes on into the domain. -/
theorem domainText_ends (separator : UInt8) (mark : isdigit separator = false) (domain : Option Bytes) :
    ∀ char ∈ (domainText separator domain).head?, isdigit char = false := by
  cases domain with
  | none => nofun
  | some domain =>
    rintro char ⟨⟩
    exact mark

section RoundTrip

variable {wildcard : Bool} {addr : Faddr} (written : addr.Written wildcard)

include written in
/-- The Fidonet form is read back. -/
theorem ftnAddrparse_fido (form : addr.inetform = false) :
    ftnAddrparse (ftnAddrstrFido addr) wildcard = some addr := by
  have allowed : (wildcard && !addr.inetform) = wildcard := by
    rw [form, Bool.not_false, Bool.and_true]
  have text := ftnAddrstrFido_text written
  obtain ⟨⟨zone, net, node, point, fits, _⟩, printable⟩ := written
  rw [allowed] at zone net node point
  have domain := domainRead_printed printable fits
  have ends := domainText_ends 64 rfl (printedDomain addr.domain)
  have shape : addrForm wildcard (ftnAddrstrFido addr) false = some false := by
    rw [text]
    apply addrForm_run (addrint2str_chars zone)
    rw [addrForm_separator (.inl rfl)]
    apply addrForm_run (addrint2str_chars net)
    rw [addrForm_separator (.inr (.inl rfl))]
    apply addrForm_run (addrint2str_chars node)
    unfold pointText
    split
    · exact addrForm_domain wildcard _
    · rw [List.cons_append, addrForm_separator (.inr (.inr rfl))]
      exact addrForm_run (addrint2str_chars point) (addrForm_domain wildcard _)
  have stop {separator : UInt8} {rest : Bytes} (mark : isdigit separator = false) :
      ∀ char ∈ (separator :: rest).head?, isdigit char = false := by
    rintro char ⟨⟩
    exact mark
  have loop : addrparseFidoLoop wildcard (ftnAddrstrFido addr) (ftnAddrstrFido addr) {}
      { inetform := false, zone := 2, net := 5020, node := 0, point := 0 } =
        some ({ addr with domain := [] }, domainText 64 (printedDomain addr.domain)) := by
    rw [text, fidoLoop_run _ _ _ _ (addrint2str_chars zone), fidoLoop_zone _ _ _ (addrPart_printed zone (stop rfl)),
      if_neg Bool.false_ne_true, fidoLoop_run _ _ _ _ (addrint2str_chars net),
      fidoLoop_net _ _ _ (addrPart_printed net (stop rfl)), if_neg Bool.false_ne_true,
      fidoLoop_run _ _ _ _ (addrint2str_chars node)]
    unfold pointText
    split
    next direct =>
      rw [List.nil_append, fidoLoop_end, fidoEnd_part _ _ (addrPart_printed node ends)]
      simp [direct, form]
    next =>
      rw [List.cons_append, fidoLoop_node _ _ _ (addrPart_printed node (stop rfl)), if_neg Bool.false_ne_true,
        fidoLoop_run _ _ _ _ (addrint2str_chars point), fidoLoop_end, fidoEnd_part _ _ (addrPart_printed point ends)]
      simp [form]
  have parse := ftnAddrparseFido_of_loop rfl loop
  unfold ftnAddrparse
  rw [shape]
  simp only [Bool.false_eq_true, if_false, parse, domain]

include written in
/-- The internet form is read back. -/
theorem ftnAddrparse_inet (form : addr.inetform = true) :
    ftnAddrparse (ftnAddrstrInet addr) wildcard = some addr := by
  have allowed : (wildcard && !addr.inetform) = false := by
    rw [form, Bool.not_true, Bool.and_false]
  have text := ftnAddrstrInet_text written
  obtain ⟨⟨zone, net, node, point, fits, _⟩, printable⟩ := written
  rw [allowed] at zone net node point
  have domain := domainRead_printed printable fits
  have ends := domainText_ends 46 rfl (printedDomain addr.domain)
  have stop {rest : Bytes} : ∀ char ∈ (46 :: rest).head?, isdigit char = false := by
    rintro char ⟨⟩
    rfl
  have plain {value : Int} (written : AddrValue false value) {letter : UInt8} (other : letter ≠ 46) :
      ∀ char ∈ letter :: addrint2str value, char ≠ 46 := by
    intro char member
    rcases List.mem_cons.mp member with rfl | member
    · exact other
    · exact addrChar_plain (addrint2str_chars written char member) 46 rfl
  have part {value : Int} (written : AddrValue false value) {letter : UInt8} {kind : InetKind}
      (named : inetKind letter = some kind) (other : letter ≠ 46) (p : Bytes) (got : GotParts) (start : Faddr) :
      addrparseInetLoop (letter :: (addrint2str value ++ 46 :: p)) (letter :: (addrint2str value ++ 46 :: p)) got start =
        match inetStep (46 :: p) got start value kind with
        | none => none
        | some (true, _, addr) => some addr
        | some (false, got, addr) => addrparseInetLoop p p got addr := by
    rw [← List.cons_append, inetLoop_part (plain written other), List.cons_append, addrInetPart_step,
      addrPart_printed written stop, named]
    rfl
  have zoned (got : GotParts) (ready : got.node = true ∧ got.net = true ∧ got.zone = false) (start : Faddr)
      (clear : start.domain = []) :
      addrparseInetLoop (122 :: (addrint2str addr.zone ++ domainText 46 (printedDomain addr.domain)))
          (122 :: (addrint2str addr.zone ++ domainText 46 (printedDomain addr.domain))) got start =
        some { start with zone := addr.zone, domain := addr.domain } := by
    have step : inetStep (domainText 46 (printedDomain addr.domain)) got start addr.zone .zone =
        some (true, { got with zone := true }, { start with zone := addr.zone, domain := addr.domain }) := by
      rw [inetStep, ready.1, ready.2.1, ready.2.2, clear, inetDomain_text, domain]
      rfl
    cases shape : printedDomain addr.domain with
    | none =>
      rw [shape, domainText] at step
      have number := @addrPart_printed false _ zone [] nofun
      rw [List.append_nil] at number
      rw [domainText, List.append_nil, inetLoop_last (plain zone (by decide)), addrInetPart_step, number]
      simp only [Option.bind_some, show inetKind 122 = some .zone from rfl, step, Option.map_some]
    | some text =>
      rw [shape, domainText] at step
      rw [domainText, part zone (show inetKind 122 = some .zone from rfl) (by decide), step]
  have nodes (got : GotParts) (none_ : got.zone = false ∧ got.net = false ∧ got.node = false) (start : Faddr)
      (clear : start.domain = []) :
      addrparseInetLoop
          (102 :: (addrint2str addr.node ++ 46 :: 110 :: (addrint2str addr.net ++ 46 :: 122 ::
            (addrint2str addr.zone ++ domainText 46 (printedDomain addr.domain)))))
          (102 :: (addrint2str addr.node ++ 46 :: 110 :: (addrint2str addr.net ++ 46 :: 122 ::
            (addrint2str addr.zone ++ domainText 46 (printedDomain addr.domain))))) got start =
        some { start with zone := addr.zone, net := addr.net, node := addr.node, domain := addr.domain } := by
    rw [part node (show inetKind 102 = some .node from rfl) (by decide), inetStep, none_.1, none_.2.1, none_.2.2]
    simp only [Bool.or_self, Bool.false_eq_true, if_false]
    rw [part net (show inetKind 110 = some .net from rfl) (by decide), inetStep]
    simp only [Bool.not_false, Bool.and_self, if_true]
    exact zoned _ ⟨rfl, rfl, rfl⟩ _ clear
  have loop : addrparseInetLoop (ftnAddrstrInet addr) (ftnAddrstrInet addr) {}
      { inetform := true, zone := 2, net := 5020, node := 0, point := 0 } = some addr := by
    rw [text]
    split
    next direct =>
      rw [List.nil_append, nodes _ ⟨rfl, rfl, rfl⟩ _ rfl, ← form, ← direct]
    next =>
      rw [List.cons_append, List.append_assoc, List.singleton_append, part point
        (show inetKind 112 = some .point from rfl) (by decide), inetStep]
      simp only [Bool.false_eq_true, if_false]
      rw [nodes _ ⟨rfl, rfl, rfl⟩ _ rfl, ← form]
  have shape : addrForm wildcard (ftnAddrstrInet addr) false = some true := by
    rw [text]
    split
    next => rfl
    next => rfl
  unfold ftnAddrparse
  rw [shape]
  simp only [if_true, loop]

end RoundTrip

/-- What is printed for an address is read as the address, in both forms. -/
theorem addrstr_addrparse (wildcard : Bool) (addr : Faddr) (written : addr.Written wildcard) :
    ftnAddrparse (ftnAddrstr addr) wildcard = some addr := by
  unfold ftnAddrstr
  cases form : addr.inetform with
  | true =>
    rw [if_pos rfl]
    exact ftnAddrparse_inet written form
  | false =>
    rw [if_neg Bool.false_ne_true]
    exact ftnAddrparse_fido written form

/-- A point of the Fidonet form, any node of a net, and a node of the internet form. -/
theorem addrstr_addrparse_forms :
    ftnAddrparse (ftnAddrstr ⟨false, 2, 5020, 1042, 7, ascii "fidonet"⟩) false =
        some ⟨false, 2, 5020, 1042, 7, ascii "fidonet"⟩ ∧
      ftnAddrparse (ftnAddrstr ⟨false, 2, 5020, -1, -1, []⟩) true = some ⟨false, 2, 5020, -1, -1, []⟩ ∧
      ftnAddrparse (ftnAddrstr ⟨true, 2, 5020, 1042, 0, ascii "fidonet.org"⟩) false =
        some ⟨true, 2, 5020, 1042, 0, ascii "fidonet.org"⟩ := by
  have value {wildcard : Bool} (number : Int) (range : 0 ≤ number ∧ number ≤ 0x7fff) : AddrValue wildcard number :=
    .inl range
  refine ⟨addrstr_addrparse _ _ ⟨⟨?_, ?_, ?_, ?_, ?_, ?_⟩, ?_⟩, addrstr_addrparse _ _ ⟨⟨?_, ?_, ?_, ?_, ?_, ?_⟩, ?_⟩,
    addrstr_addrparse _ _ ⟨⟨?_, ?_, ?_, ?_, ?_, ?_⟩, ?_⟩⟩
  all_goals first
    | exact value _ (by decide)
    | exact .inr ⟨rfl, rfl⟩
    | decide +kernel

/-- A control character in the domain is printed as it is, and quoted when it is read. -/
theorem domain_quoted : ¬ ∀ (wildcard : Bool) (addr : Faddr), addr.Fitting wildcard →
    ftnAddrparse (ftnAddrstr addr) wildcard = some addr := by
  intro all
  have read := all false ⟨false, 2, 5020, 1042, 0, [1]⟩
    ⟨.inl (by decide), .inl (by decide), .inl (by decide), .inl (by decide), by decide, by decide⟩
  revert read
  decide

end Binkleyforce
