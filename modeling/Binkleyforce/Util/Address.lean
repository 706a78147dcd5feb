import Binkleyforce.Util.Text

/-!
# FTN addresses

Parsing and comparison of node addresses. The parsers walk the text with two
cursors, `p` over the characters and `s` at the start of the current part; both
are modelled as the suffix of the text they point at. Numbers go through the C
library's `atoi`, with a 64-bit `long` and a 32-bit `int`.
-/

namespace Binkleyforce

/-- `s_faddr`. The value -1 of a part means any. -/
structure Faddr where
  inetform : Bool := false
  zone : Int := 0
  net : Int := 0
  node : Int := 0
  point : Int := 0
  domain : Bytes := []
  deriving DecidableEq, Repr, Inhabited

/-- The parts of an address are words. -/
def Faddr.Words (addr : Faddr) : Prop :=
  ∀ part ∈ [addr.zone, addr.net, addr.node, addr.point], 0 ≤ part ∧ part < 2 ^ 16

/-- The room for a domain, terminator included (`BF_MAXDOMAIN + 1`). -/
def domainSize : Nat := 41

/-- The value of the leading decimal digits. -/
def leadingNumber (text : Bytes) : Nat :=
  (text.takeWhile isdigit).foldl (fun value digit => 10 * value + (digit.toNat - 48)) 0

/-- `atoi` on a text that starts with a digit: `strtol` saturates, and the
result is cut to an `int`. -/
def atoi (text : Bytes) : Int := Int.bmod (min (leadingNumber text : Int) (2 ^ 63 - 1)) (2 ^ 32)

/-- `addrstr2int`: the number, clamped to the range of an address part. -/
def addrstr2int (s : Bytes) : Int :=
  let val := atoi s
  if val < 0 then 0 else if val > 0x7fff then 0x7fff else val

/-- Quote the unprintable bytes, as `string_printable` does. -/
def stringPrintable (text : Bytes) : Bytes :=
  text.flatMap fun byte => if isprint byte then [byte] else ascii "\\x" ++ stringBinToHex [byte]

/-- `ftn_addrcomp(addr1, addr2) == 0`: the four numbers agree. -/
def ftnAddrcomp (addr1 addr2 : Faddr) : Bool :=
  addr1.zone == addr2.zone && addr1.net == addr2.net &&
    addr1.node == addr2.node && addr1.point == addr2.point

/-- The number that starts at the cursor, or a wildcard where they are allowed. -/
def addrPart (wildcard : Bool) (s : Bytes) : Option Int :=
  match s with
  | [] => none
  | char :: _ =>
    if isdigit char then some (addrstr2int s)
    else if wildcard && char == 42 then some (-1)
    else none

/-- Which parts of the address have been read. -/
structure GotParts where
  zone : Bool := false
  net : Bool := false
  node : Bool := false
  point : Bool := false

/-- The last part of the Fidonet form, at the `@` or at the end of the text. -/
def addrparseFidoEnd (wildcard : Bool) (s : Bytes) (got : GotParts) (addr : Faddr) :
    Option Faddr :=
  if got.zone && !got.net then none
  else
    match s with
    | [] => none
    | char :: rest =>
      if char == 47 then
        if got.node then none else (addrPart wildcard rest).map fun val => { addr with node := val }
      else if char == 46 then
        if got.point then none
        else (addrPart wildcard rest).map fun val => { addr with point := val }
      else
        (addrPart wildcard s).bind fun val =>
          if !got.node then some { addr with node := val }
          else if !got.point then some { addr with point := val }
          else none

/-- The loop of `ftn_addrparse_fido`, by recursion on the text at `p`. The
result is the address with the text from the `@` or the end on. -/
def addrparseFidoLoop (wildcard : Bool) :
    Bytes → Bytes → GotParts → Faddr → Option (Faddr × Bytes)
  | [], s, got, addr => (addrparseFidoEnd wildcard s got addr).map fun done => (done, [])
  | char :: p, s, got, addr =>
    if char == 58 then
      match got.zone, addrPart wildcard s with
      | false, some val =>
        addrparseFidoLoop wildcard p p { got with zone := true } { addr with zone := val }
      | _, _ => none
    else if char == 47 then
      match got.net, addrPart wildcard s with
      | false, some val =>
        addrparseFidoLoop wildcard p p { got with net := true } { addr with net := val }
      | _, _ => if s.head? == some 47 then addrparseFidoLoop wildcard p s got addr else none
    else if char == 46 then
      let s := if s.head? == some 47 then s.tail else s
      match got.node, addrPart wildcard s with
      | false, some val =>
        addrparseFidoLoop wildcard p p { got with node := true } { addr with node := val }
      | _, _ => if s.head? == some 46 then addrparseFidoLoop wildcard p s got addr else none
    else if char == 64 then
      (addrparseFidoEnd wildcard s got addr).map fun done => (done, char :: p)
    else if isdigit char || (wildcard && char == 42) then addrparseFidoLoop wildcard p s got addr
    else none

/-- The loop over the Fidonet form ends where the domain begins. -/
theorem fidoLoop_domain (wildcard : Bool) (p s : Bytes) (got : GotParts) (addr : Faddr) :
    addrparseFidoLoop wildcard (64 :: p) s got addr =
      (addrparseFidoEnd wildcard s got addr).map fun done => (done, 64 :: p) := by
  rw [addrparseFidoLoop, if_neg (by decide), if_neg (by decide), if_neg (by decide), if_pos (by decide)]

/-- `ftn_addrparse_fido`; `none` is the non-zero return. -/
def ftnAddrparseFido (addr : Faddr) (s : Bytes) (wildcard : Bool) : Option Faddr :=
  (addrparseFidoLoop wildcard s s {} addr).map fun (done, p) =>
    if p.head? == some 64 && p.tail ≠ [] then
      { done with domain := strnxcpy (stringPrintable p.tail) domainSize }
    else done

/-- One part of the internet form, read at `s` when the cursor `p` stands at a
dot or at the end. The flag tells that the zone was read, which ends the parse. -/
def addrInetPart (p s : Bytes) (got : GotParts) (addr : Faddr) :
    Option (Bool × GotParts × Faddr) :=
  match s with
  | [] => none
  | kind :: digits =>
    match addrPart false digits with
    | none => none
    | some val =>
      if kind == 112 || kind == 80 then
        if got.point then none
        else some (false, { got with point := true }, { addr with point := val })
      else if kind == 102 || kind == 70 then
        if got.net || got.zone || got.node then none
        else some (false, { got with node := true }, { addr with node := val })
      else if kind == 110 || kind == 78 then
        if got.node && !got.zone && !got.net then
          some (false, { got with net := true }, { addr with net := val })
        else none
      else if kind == 122 || kind == 90 then
        if got.node && got.net && !got.zone then
          let domain :=
            if p.head? == some 46 && p.tail ≠ [] then
              strnxcpy (stringPrintable p.tail) domainSize
            else addr.domain
          some (true, { got with zone := true }, { addr with zone := val, domain := domain })
        else none
      else none

/-- The loop of `ftn_addrparse_inet`, by recursion on the text at `p`. -/
def addrparseInetLoop : Bytes → Bytes → GotParts → Faddr → Option Faddr
  | [], s, got, addr => (addrInetPart [] s got addr).map fun part => part.2.2
  | char :: p, s, got, addr =>
    if char == 46 then
      match addrInetPart (char :: p) s got addr with
      | none => none
      | some (true, _, addr) => some addr
      | some (false, got, addr) => addrparseInetLoop p p got addr
    else addrparseInetLoop p s got addr

/-- What is no point is passed over in the internet form. -/
theorem inetLoop_run {run : Bytes} (part : ∀ char ∈ run, char ≠ 46) (p s : Bytes) (got : GotParts) (addr : Faddr) :
    addrparseInetLoop (run ++ p) s got addr = addrparseInetLoop p s got addr := by
  induction run with
  | nil => rfl
  | cons char run inductionHypothesis =>
    rw [List.cons_append, addrparseInetLoop, if_neg (by simpa using part char List.mem_cons_self)]
    exact inductionHypothesis fun later member => part later (List.mem_cons_of_mem _ member)

/-- Detect the form of the address: `some true` for the internet form. -/
def addrForm (wildcard : Bool) : Bytes → Bool → Option Bool
  | [], inetform => some inetform
  | char :: rest, inetform =>
    if char == 42 then if wildcard then some false else none
    else if char == 64 then some false
    else if char == 58 || char == 47 || char == 46 then addrForm wildcard rest false
    else if char == 112 || char == 80 || char == 102 || char == 70 then some true
    else if isdigit char then addrForm wildcard rest inetform
    else none

/-- `ftn_addrparse`, starting from the default address 2:5020/0. -/
def ftnAddrparse (s : Bytes) (wildcard : Bool) : Option Faddr :=
  match addrForm wildcard s false with
  | none => none
  | some inetform =>
    let addr : Faddr := { inetform := inetform, zone := 2, net := 5020, node := 0, point := 0 }
    if inetform then addrparseInetLoop s s {} addr else ftnAddrparseFido addr s wildcard

end Binkleyforce
