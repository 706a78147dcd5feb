import Mathlib.Data.List.Nodup
import Binkleyforce.Library.Segments
import Binkleyforce.Util.AddressText

/-!
# The grammar of addresses

The forms an address may be written in, and what the parsers make of a text. The parsers look at the first
character of a part and at the separators, so that they read more than the grammar has: a loose text has
parts that begin right and that are read once each.
-/

namespace Binkleyforce

/-! ## The forms -/

/-- A number: digits, or the wildcard alone where it is allowed. -/
def AddrNumber (wildcard : Bool) (text : Bytes) : Prop :=
  (text ≠ [] ∧ ∀ char ∈ text, isdigit char = true) ∨ (wildcard = true ∧ text = [42])

/-- The number written, in the range of an address part. -/
def clampedNumber (text : Bytes) : Int := if text = [42] then -1 else min (leadingNumber text) 0x7fff

/-- The number the parser makes of the text. -/
def parsedNumber (text : Bytes) : Int := if text = [42] then -1 else addrstr2int text

/-- What stands before the node. -/
inductive FidoFront
  | bare
  | slash
  | net (number : Bytes)
  | zone (number net : Bytes)

def FidoFront.text : FidoFront → Bytes
  | .bare => []
  | .slash => [47]
  | .net number => number ++ [47]
  | .zone number second => number ++ 58 :: (second ++ [47])

def FidoFront.numbers : FidoFront → List Bytes
  | .bare => []
  | .slash => []
  | .net number => [number]
  | .zone number second => [number, second]

/-- The zone and the net. -/
def FidoFront.above (read : Bytes → Int) : FidoFront → Int × Int
  | .bare => (2, 5020)
  | .slash => (2, 5020)
  | .net number => (2, read number)
  | .zone number second => (read number, read second)

/-- The Fidonet form: `[[zone:]net/]node[.point]`, `/node[.point]` or `.point`. -/
inductive FidoForm
  | node (front : FidoFront) (number : Bytes) (point : Option Bytes)
  | point (number : Bytes)

def FidoForm.text : FidoForm → Bytes
  | .node front number none => front.text ++ number
  | .node front number (some last) => front.text ++ (number ++ 46 :: last)
  | .point number => 46 :: number

def FidoForm.numbers : FidoForm → List Bytes
  | .node front number last => front.numbers ++ number :: last.toList
  | .point number => [number]

/-- The address written: parts that are missing have their defaults. -/
def FidoForm.addr (read : Bytes → Int) (domain : Option Bytes) : FidoForm → Faddr
  | .node front number last =>
    let above := front.above read
    ⟨false, above.1, above.2, read number, (last.map read).getD 0, domainRead domain⟩
  | .point number => ⟨false, 2, 5020, 0, read number, domainRead domain⟩

/-! ## Loose texts of the Fidonet form -/

/-- A part that begins with one of its characters. -/
def Begins (wildcard : Bool) (body : Bytes) : Prop := ∃ char rest, body = char :: rest ∧ addrChar wildcard char = true

/-- A part of nothing but its characters: digits and wildcards. -/
def Mixed (wildcard : Bool) (run : Bytes) : Prop := run ≠ [] ∧ ∀ char ∈ run, addrChar wildcard char = true

/-- The texts the parser of the Fidonet form takes, from the start of a part on. The flags tell that the zone,
the net and the node were read. -/
inductive FidoLoose (wildcard : Bool) : Bool → Bool → Bool → Bytes → Prop
  /-- The zone, once, before, between or behind the others. -/
  | zone {net node run rest} : Mixed wildcard run → FidoLoose wildcard true net node rest →
      FidoLoose wildcard false net node (run ++ 58 :: rest)
  /-- The net, once. -/
  | net {zone node run rest} : Mixed wildcard run → FidoLoose wildcard zone true node rest →
      FidoLoose wildcard zone false node (run ++ 47 :: rest)
  /-- The node, once. -/
  | node {zone net run rest} : Mixed wildcard run → FidoLoose wildcard zone net true rest →
      FidoLoose wildcard zone net false (run ++ 46 :: rest)
  /-- The node behind a slash, and what follows it up to the point. -/
  | slashed {zone net body rest} : Begins wildcard body → (∀ char ∈ body, addrChar wildcard char = true ∨ char = 47) →
      FidoLoose wildcard zone net true rest → FidoLoose wildcard zone net false (47 :: (body ++ 46 :: rest))
  /-- The last part. -/
  | last {zone net node run} : Mixed wildcard run → (zone = true → net = true) → FidoLoose wildcard zone net node run
  /-- The node behind a slash, and what follows it. -/
  | lastSlashed {zone net body} : Begins wildcard body →
      (∀ char ∈ body, addrChar wildcard char = true ∨ char = 47) → (zone = true → net = true) →
      FidoLoose wildcard zone net false (47 :: body)
  /-- The point, and what follows it. -/
  | lastPoint {zone net node body} : Begins wildcard body →
      (∀ char ∈ body, addrChar wildcard char = true ∨ char = 46) → (zone = true → net = true) →
      FidoLoose wildcard zone net node (46 :: body)
  /-- The point with a slash before it. -/
  | slashedPoint {zone net node body} : Begins wildcard body →
      (∀ char ∈ body, addrChar wildcard char = true ∨ char = 46) → (zone = true → net = true) →
      FidoLoose wildcard zone net node (47 :: 46 :: body)

section Fidonet

variable {wildcard : Bool}

/-- A part is read where it begins with one of its characters. -/
theorem addrPart_begins {body : Bytes} : (∃ value, addrPart wildcard body = some value) ↔ Begins wildcard body := by
  constructor
  · rintro ⟨value, read⟩
    exact addrPart_some read
  · rintro ⟨char, rest, rfl, part⟩
    exact Option.isSome_iff_exists.mp (addrPart_isSome.trans part)

theorem Begins.append {body : Bytes} (begins : Begins wildcard body) (rest : Bytes) :
    Begins wildcard (body ++ rest) := by
  obtain ⟨char, later, rfl, part⟩ := begins
  exact ⟨char, later ++ rest, rfl, part⟩

theorem Mixed.begins {run : Bytes} (mixed : Mixed wildcard run) : Begins wildcard run := by
  obtain ⟨char, later, rfl⟩ := List.exists_cons_of_ne_nil mixed.1
  exact ⟨char, later, rfl, mixed.2 char List.mem_cons_self⟩

/-- A separator is no character of a part, with wildcards or without. -/
theorem addrChar_mark {separator : UInt8} (other : addrChar true separator = false) :
    addrChar wildcard separator = false :=
  Bool.eq_false_iff.mpr fun part => addrChar_plain part separator other rfl

variable (p s : Bytes) (got : GotParts) (addr : Faddr)

/-- At any other character the parse fails. -/
theorem fidoLoop_stop {char : UInt8} (other : addrChar wildcard char = false)
    (mark : char ≠ 58 ∧ char ≠ 47 ∧ char ≠ 46 ∧ char ≠ 64) :
    addrparseFidoLoop wildcard (char :: p) s got addr = none := by
  rw [addrparseFidoLoop, if_neg (by simpa using mark.1), if_neg (by simpa using mark.2.1),
    if_neg (by simpa using mark.2.2.1), if_neg (by simpa using mark.2.2.2), ← addrChar, other,
    if_neg Bool.false_ne_true]

variable {s} in
/-- At a colon, a part is needed. -/
theorem fidoLoop_colon (missing : addrPart wildcard s = none) :
    addrparseFidoLoop wildcard (58 :: p) s got addr = none := by
  rw [addrparseFidoLoop, if_pos (by decide), missing]
  cases got.zone with
  | true => rfl
  | false => rfl

variable {s} in
/-- At a slash, a part is needed, or a slash. -/
theorem fidoLoop_slash (missing : addrPart wildcard s = none) :
    addrparseFidoLoop wildcard (47 :: p) s got addr =
      if s.head? == some 47 then addrparseFidoLoop wildcard p s got addr else none := by
  rw [addrparseFidoLoop, if_neg (by decide), if_pos (by decide), missing]
  cases got.net with
  | true => rfl
  | false => rfl

variable {s} in
/-- At a point, a part is needed, or a point. -/
theorem fidoLoop_dot (plain : (s.head? == some 47) = false) (missing : addrPart wildcard s = none) :
    addrparseFidoLoop wildcard (46 :: p) s got addr =
      if s.head? == some 46 then addrparseFidoLoop wildcard p s got addr else none := by
  rw [addrparseFidoLoop, if_neg (by decide), if_neg (by decide), if_pos (by decide), plain]
  simp only [Bool.false_eq_true, if_false, missing]
  cases got.node with
  | true => rfl
  | false => rfl

/-- A slash before the part does not count at a point. -/
theorem fidoLoop_slashDot (plain : (s.head? == some 47) = false) :
    addrparseFidoLoop wildcard (46 :: p) (47 :: s) got addr = addrparseFidoLoop wildcard (46 :: p) s got addr := by
  rw [addrparseFidoLoop, if_neg (by decide), if_neg (by decide), if_pos (by decide)]
  conv_rhs => rw [addrparseFidoLoop, if_neg (by decide), if_neg (by decide), if_pos (by decide), plain]
  rfl

/-- A part may begin with a slash. -/
theorem fidoLoop_slash_self :
    addrparseFidoLoop wildcard (47 :: p) (47 :: s) got addr = addrparseFidoLoop wildcard p (47 :: s) got addr := by
  rw [fidoLoop_slash _ _ _ (addrPart_none (addrChar_mark rfl)), if_pos (by simp)]

/-- A part may begin with a point. -/
theorem fidoLoop_dot_self :
    addrparseFidoLoop wildcard (46 :: p) (46 :: s) got addr = addrparseFidoLoop wildcard p (46 :: s) got addr := by
  rw [fidoLoop_dot _ _ _ rfl (addrPart_none (addrChar_mark rfl)), if_pos (by simp)]

/-- Two slashes and a point are not taken. -/
theorem fidoLoop_slashes : addrparseFidoLoop wildcard (46 :: p) (47 :: 47 :: s) got addr = none := by
  rw [addrparseFidoLoop, if_neg (by decide), if_neg (by decide), if_pos (by decide)]
  simp only [List.head?_cons, BEq.rfl, if_true, List.tail_cons,
    addrPart_none (addrChar_mark (rfl : addrChar true 47 = false))]
  cases got.node with
  | true => rfl
  | false => rfl

/-- Behind a slash the parser passes over further ones. -/
theorem fidoLoop_slashed {body : Bytes} (inside : ∀ char ∈ body, addrChar wildcard char = true ∨ char = 47) :
    addrparseFidoLoop wildcard (body ++ p) (47 :: s) got addr = addrparseFidoLoop wildcard p (47 :: s) got addr := by
  induction body with
  | nil => rfl
  | cons char body inductionHypothesis =>
    have later := inductionHypothesis fun later member => inside later (List.mem_cons_of_mem _ member)
    rcases inside char List.mem_cons_self with part | rfl
    · have one := @fidoLoop_run wildcard (body ++ p) (47 :: s) got addr [char] (by simpa using part)
      exact one.trans later
    · rw [List.cons_append, fidoLoop_slash_self]
      exact later

/-- Behind a point the parser passes over further ones. -/
theorem fidoLoop_pointed {body : Bytes} (inside : ∀ char ∈ body, addrChar wildcard char = true ∨ char = 46) :
    addrparseFidoLoop wildcard (body ++ p) (46 :: s) got addr = addrparseFidoLoop wildcard p (46 :: s) got addr := by
  induction body with
  | nil => rfl
  | cons char body inductionHypothesis =>
    have later := inductionHypothesis fun later member => inside later (List.mem_cons_of_mem _ member)
    rcases inside char List.mem_cons_self with part | rfl
    · have one := @fidoLoop_run wildcard (body ++ p) (46 :: s) got addr [char] (by simpa using part)
      exact one.trans later
    · rw [List.cons_append, fidoLoop_dot_self]
      exact later

variable {s} in
/-- Where nothing begins, nothing is read at the end. -/
theorem fidoEnd_missing (missing : addrPart wildcard s = none) (slash : (s.head? == some 47) = false)
    (dot : (s.head? == some 46) = false) : addrparseFidoEnd wildcard s got addr = none := by
  unfold addrparseFidoEnd
  split
  · rfl
  · cases s with
    | nil => rfl
    | cons char rest =>
      simp only
      rw [if_neg (by simpa using slash), if_neg (by simpa using dot), missing]
      rfl

/-- The node behind a slash. -/
theorem fidoEnd_slashed : addrparseFidoEnd wildcard (47 :: s) got addr =
    if got.zone && !got.net then none
    else if got.node then none
    else (addrPart wildcard s).map fun val => { addr with node := val } := rfl

/-- The point behind a point. -/
theorem fidoEnd_pointed : addrparseFidoEnd wildcard (46 :: s) got addr =
    if got.zone && !got.net then none
    else if got.point then none
    else (addrPart wildcard s).map fun val => { addr with point := val } := rfl

/-- A zone was read only with a net. -/
theorem zone_needs_net {zone net : Bool} (together : zone = true → net = true) : ¬ (zone && !net) = true := by
  cases zone with
  | true => simp [together rfl]
  | false => simp

/-- A loose text is taken. -/
theorem FidoLoose.accepted {zone net node : Bool} {core : Bytes} (loose : FidoLoose wildcard zone net node core)
    (domain : Option Bytes) (addr : Faddr) :
    (addrparseFidoLoop wildcard (core ++ domainText 64 domain) (core ++ domainText 64 domain)
      ⟨zone, net, node, false⟩ addr).isSome = true := by
  induction loose generalizing addr with
  | zone mixed _ later =>
    obtain ⟨value, read⟩ := addrPart_begins.mpr (mixed.begins.append _)
    rw [List.append_assoc, fidoLoop_run _ _ _ _ mixed.2, List.cons_append, fidoLoop_zone _ _ _ read,
      if_neg Bool.false_ne_true]
    exact later _
  | net mixed _ later =>
    obtain ⟨value, read⟩ := addrPart_begins.mpr (mixed.begins.append _)
    rw [List.append_assoc, fidoLoop_run _ _ _ _ mixed.2, List.cons_append, fidoLoop_net _ _ _ read,
      if_neg Bool.false_ne_true]
    exact later _
  | node mixed _ later =>
    obtain ⟨value, read⟩ := addrPart_begins.mpr (mixed.begins.append _)
    rw [List.append_assoc, fidoLoop_run _ _ _ _ mixed.2, List.cons_append, fidoLoop_node _ _ _ read,
      if_neg Bool.false_ne_true]
    exact later _
  | @slashed zone net body rest begins inside _ later =>
    obtain ⟨value, read⟩ := addrPart_begins.mpr (begins.append (46 :: (rest ++ domainText 64 domain)))
    rw [List.cons_append, List.append_assoc, List.cons_append, fidoLoop_slash_self, fidoLoop_slashed _ _ _ _ inside,
      fidoLoop_slashDot _ _ _ _ (addrPart_plain read 47 rfl), fidoLoop_node _ _ _ read, if_neg Bool.false_ne_true]
    exact later _
  | @last zone net node run mixed together =>
    obtain ⟨value, read⟩ := addrPart_begins.mpr (mixed.begins.append (domainText 64 domain))
    rw [fidoLoop_run _ _ _ _ mixed.2, fidoLoop_end, fidoEnd_part _ _ read, if_neg (zone_needs_net together)]
    cases node with
    | true => rfl
    | false => rfl
  | @lastSlashed zone net body begins inside together =>
    obtain ⟨value, read⟩ := addrPart_begins.mpr (begins.append (domainText 64 domain))
    rw [List.cons_append, fidoLoop_slash_self, fidoLoop_slashed _ _ _ _ inside, fidoLoop_end, fidoEnd_slashed,
      if_neg (zone_needs_net together), if_neg Bool.false_ne_true, read]
    rfl
  | @lastPoint zone net node body begins inside together =>
    obtain ⟨value, read⟩ := addrPart_begins.mpr (begins.append (domainText 64 domain))
    rw [List.cons_append, fidoLoop_dot_self, fidoLoop_pointed _ _ _ _ inside, fidoLoop_end, fidoEnd_pointed,
      if_neg (zone_needs_net together), if_neg Bool.false_ne_true, read]
    rfl
  | @slashedPoint zone net node body begins inside together =>
    obtain ⟨value, read⟩ := addrPart_begins.mpr (begins.append (domainText 64 domain))
    rw [List.cons_append, List.cons_append, fidoLoop_slash_self, fidoLoop_slashDot _ _ _ _ rfl, fidoLoop_dot_self,
      fidoLoop_pointed _ _ _ _ inside, fidoLoop_end, fidoEnd_pointed, if_neg (zone_needs_net together),
      if_neg Bool.false_ne_true, read]
    rfl

/-- The characters of a kind at the front of a text. -/
theorem exists_run (kind : UInt8 → Bool) (text : Bytes) : ∃ run rest, text = run ++ rest ∧
    (∀ char ∈ run, kind char = true) ∧ ∀ char ∈ rest.head?, kind char = false := by
  induction text with
  | nil => exact ⟨[], [], rfl, nofun, nofun⟩
  | cons char text inductionHypothesis =>
    cases here : kind char with
    | true =>
      obtain ⟨run, rest, rfl, inside, ends⟩ := inductionHypothesis
      refine ⟨char :: run, rest, rfl, ?_, ends⟩
      simpa [here] using inside
    | false => exact ⟨[], char :: text, rfl, nofun, by simpa using here⟩

/-- A text ends, has its domain, or goes on. -/
theorem domain_cases (rest : Bytes) :
    (∃ domain, rest = domainText 64 domain) ∨ ∃ char p, rest = char :: p ∧ char ≠ 64 := by
  cases rest with
  | nil => exact .inl ⟨none, rfl⟩
  | cons char p =>
    by_cases mark : char = 64
    · exact .inl ⟨some p, by rw [mark, domainText]⟩
    · exact .inr ⟨char, p, rfl, mark⟩

/-- A part does not begin in the domain. -/
theorem begins_of_end {body : Bytes} {domain : Option Bytes} {value : Int}
    (read : addrPart wildcard (body ++ domainText 64 domain) = some value) : Begins wildcard body := by
  obtain ⟨char, rest, same, part⟩ := addrPart_some read
  cases body with
  | cons first later =>
    obtain ⟨rfl, -⟩ := List.cons.inj same
    exact ⟨first, later, rfl, part⟩
  | nil =>
    cases domain with
    | none => cases same
    | some domain =>
      obtain ⟨rfl, -⟩ := List.cons.inj same
      rw [addrChar_mark rfl] at part
      cases part

variable {p got addr}

/-- Behind a point the parser takes only the point. -/
theorem pointed_loose (accepted : (addrparseFidoLoop wildcard p (46 :: p) got addr).isSome = true) :
    ∃ body domain, p = body ++ domainText 64 domain ∧ Begins wildcard body ∧
      (∀ char ∈ body, addrChar wildcard char = true ∨ char = 46) ∧ (got.zone = true → got.net = true) := by
  obtain ⟨body, rest, rfl, inside, ends⟩ := exists_run (fun char => addrChar wildcard char || char == 46) p
  simp only [Bool.or_eq_true, beq_iff_eq] at inside
  rw [fidoLoop_pointed _ _ _ _ inside] at accepted
  rcases domain_cases rest with ⟨domain, rfl⟩ | ⟨char, p, rfl, mark⟩
  · rw [fidoLoop_end, fidoEnd_pointed] at accepted
    split at accepted
    · cases accepted
    · rename_i together
      split at accepted
      · cases accepted
      · rw [Option.isSome_map, Option.isSome_map, Option.isSome_iff_exists] at accepted
        obtain ⟨value, read⟩ := accepted
        refine ⟨body, domain, rfl, begins_of_end read, inside, ?_⟩
        intro zone
        simpa [zone] using together
  · have missing : addrPart wildcard (46 :: (body ++ char :: p)) = none := addrPart_none (addrChar_mark rfl)
    have other := ends char rfl
    rw [Bool.or_eq_false_iff, beq_eq_false_iff_ne] at other
    by_cases colon : char = 58
    · rw [colon] at accepted missing
      rw [fidoLoop_colon _ _ _ missing] at accepted
      cases accepted
    · by_cases slash : char = 47
      · rw [slash] at accepted missing
        rw [fidoLoop_slash _ _ _ missing, if_neg (by simp)] at accepted
        cases accepted
      · rw [fidoLoop_stop _ _ _ _ other.1 ⟨colon, slash, other.2, mark⟩] at accepted
        cases accepted

/-- The text from the start of a part on is loose, up to the domain. -/
def LooseFrom (wildcard : Bool) (got : GotParts) (text : Bytes) : Prop :=
  ∃ core domain, text = core ++ domainText 64 domain ∧ FidoLoose wildcard got.zone got.net got.node core

/-- What the parser takes behind a slash. -/
theorem slashed_loose (fresh : got.point = false)
    (shorter : ∀ rest : Bytes, rest.length < p.length → ∀ got addr,
      (addrparseFidoLoop wildcard rest rest got addr).isSome = true → got.point = false → LooseFrom wildcard got rest)
    (accepted : (addrparseFidoLoop wildcard p (47 :: p) got addr).isSome = true) :
    LooseFrom wildcard got (47 :: p) := by
  obtain ⟨body, rest, rfl, inside, ends⟩ := exists_run (fun char => addrChar wildcard char || char == 47) p
  simp only [Bool.or_eq_true, beq_iff_eq] at inside
  rw [fidoLoop_slashed _ _ _ _ inside] at accepted
  rcases domain_cases rest with ⟨domain, rfl⟩ | ⟨char, p, rfl, mark⟩
  · rw [fidoLoop_end, fidoEnd_slashed] at accepted
    split at accepted
    · cases accepted
    · rename_i together
      split at accepted
      · cases accepted
      · rename_i unread
        rw [Option.isSome_map, Option.isSome_map, Option.isSome_iff_exists] at accepted
        obtain ⟨value, read⟩ := accepted
        refine ⟨47 :: body, domain, rfl, ?_⟩
        rw [Bool.not_eq_true] at unread
        rw [unread]
        refine .lastSlashed (begins_of_end read) inside ?_
        intro zone
        simpa [zone] using together
  · have missing : addrPart wildcard (47 :: (body ++ char :: p)) = none := addrPart_none (addrChar_mark rfl)
    have other := ends char rfl
    rw [Bool.or_eq_false_iff, beq_eq_false_iff_ne] at other
    by_cases colon : char = 58
    · rw [colon] at accepted missing
      rw [fidoLoop_colon _ _ _ missing] at accepted
      cases accepted
    · by_cases dot : char = 46
      · subst dot
        cases body with
        | nil =>
          rw [List.nil_append, fidoLoop_slashDot _ _ _ _ rfl, fidoLoop_dot_self] at accepted
          obtain ⟨later, domain, rfl, begins, inside, together⟩ := pointed_loose accepted
          exact ⟨47 :: 46 :: later, domain, rfl, .slashedPoint begins inside together⟩
        | cons first later =>
          rcases inside first List.mem_cons_self with part | rfl
          · have begins : Begins wildcard (first :: later) := ⟨first, later, rfl, part⟩
            obtain ⟨value, read⟩ := addrPart_begins.mpr (begins.append (46 :: p))
            rw [fidoLoop_slashDot _ _ _ _ (addrPart_plain read 47 rfl), fidoLoop_node _ _ _ read] at accepted
            split at accepted
            · cases accepted
            · rename_i unread
              rw [Bool.not_eq_true] at unread
              obtain ⟨core, domain, rfl, loose⟩ := shorter p (by simp; omega) _ _ accepted fresh
              refine ⟨47 :: (first :: later ++ 46 :: core), domain, by simp, ?_⟩
              rw [unread]
              exact .slashed begins inside loose
          · rw [List.cons_append, fidoLoop_slashes] at accepted
            cases accepted
      · rw [fidoLoop_stop _ _ _ _ other.1 ⟨colon, other.2, dot, mark⟩] at accepted
        cases accepted

/-- The parser takes loose texts only. -/
theorem accepted_loose {text : Bytes} (accepted : (addrparseFidoLoop wildcard text text got addr).isSome = true)
    (fresh : got.point = false) : LooseFrom wildcard got text := by
  induction length : text.length using Nat.strongRecOn generalizing text got addr with
  | ind size shorter =>
    obtain ⟨run, rest, rfl, inside, ends⟩ := exists_run (addrChar wildcard) text
    rw [fidoLoop_run _ _ _ _ inside] at accepted
    cases run with
    | nil =>
      rw [List.nil_append] at accepted ⊢
      rcases domain_cases rest with ⟨domain, rfl⟩ | ⟨char, p, rfl, mark⟩
      · have nothing : addrparseFidoEnd wildcard (domainText 64 domain) got addr = none := by
          cases domain with
          | none => exact fidoEnd_missing _ _ rfl rfl rfl
          | some domain => exact fidoEnd_missing _ _ (addrPart_none (addrChar_mark rfl)) rfl rfl
        rw [fidoLoop_end, nothing] at accepted
        cases accepted
      · have other := ends char rfl
        by_cases colon : char = 58
        · subst colon
          rw [fidoLoop_colon _ _ _ (addrPart_none other)] at accepted
          cases accepted
        · by_cases slash : char = 47
          · subst slash
            rw [fidoLoop_slash_self] at accepted
            refine slashed_loose fresh ?_ accepted
            intro rest less got addr accepted fresh
            exact shorter rest.length (by simp at length; omega) accepted fresh rfl
          · by_cases dot : char = 46
            · subst dot
              rw [fidoLoop_dot_self] at accepted
              obtain ⟨body, domain, rfl, begins, inside, together⟩ := pointed_loose accepted
              exact ⟨46 :: body, domain, rfl, .lastPoint begins inside together⟩
            · rw [fidoLoop_stop _ _ _ _ other ⟨colon, slash, dot, mark⟩] at accepted
              cases accepted
    | cons first later =>
      have mixed : Mixed wildcard (first :: later) := ⟨List.cons_ne_nil _ _, inside⟩
      obtain ⟨value, read⟩ := addrPart_begins.mpr (mixed.begins.append rest)
      rcases domain_cases rest with ⟨domain, rfl⟩ | ⟨char, p, rfl, mark⟩
      · rw [fidoLoop_end, fidoEnd_part _ _ read] at accepted
        split at accepted
        · cases accepted
        · rename_i together
          refine ⟨first :: later, domain, rfl, .last mixed ?_⟩
          intro zone
          simpa [zone] using together
      · have less : p.length < size := by
          simp at length
          omega
        by_cases colon : char = 58
        · subst colon
          rw [fidoLoop_zone _ _ _ read] at accepted
          split at accepted
          · cases accepted
          · rename_i unread
            rw [Bool.not_eq_true] at unread
            obtain ⟨core, domain, rfl, loose⟩ := shorter p.length less accepted fresh rfl
            refine ⟨first :: later ++ 58 :: core, domain, by simp, ?_⟩
            rw [unread]
            exact .zone mixed loose
        · by_cases slash : char = 47
          · subst slash
            rw [fidoLoop_net _ _ _ read] at accepted
            split at accepted
            · cases accepted
            · rename_i unread
              rw [Bool.not_eq_true] at unread
              obtain ⟨core, domain, rfl, loose⟩ := shorter p.length less accepted fresh rfl
              refine ⟨first :: later ++ 47 :: core, domain, by simp, ?_⟩
              rw [unread]
              exact .net mixed loose
          · by_cases dot : char = 46
            · subst dot
              rw [fidoLoop_node _ _ _ read] at accepted
              split at accepted
              · cases accepted
              · rename_i unread
                rw [Bool.not_eq_true] at unread
                obtain ⟨core, domain, rfl, loose⟩ := shorter p.length less accepted fresh rfl
                refine ⟨first :: later ++ 46 :: core, domain, by simp, ?_⟩
                rw [unread]
                exact .node mixed loose
            · rw [fidoLoop_stop _ _ _ _ (ends char rfl) ⟨colon, slash, dot, mark⟩] at accepted
              cases accepted

end Fidonet

/-! ## What the parser makes of the Fidonet form -/

/-- The numbers are numbers. -/
def FidoForm.Valid (wildcard : Bool) (form : FidoForm) : Prop := ∀ number ∈ form.numbers, AddrNumber wildcard number

section FidonetForm

variable {wildcard : Bool}

/-- A number is a part. -/
theorem AddrNumber.mixed {number : Bytes} (valid : AddrNumber wildcard number) : Mixed wildcard number := by
  rcases valid with ⟨filled, digits⟩ | ⟨rfl, rfl⟩
  · refine ⟨filled, ?_⟩
    intro char member
    rw [addrChar, digits char member, Bool.true_or]
  · exact ⟨List.cons_ne_nil _ _, by decide +kernel⟩

/-- A number is read up to the separator behind it. -/
theorem AddrNumber.read {number : Bytes} (valid : AddrNumber wildcard number) {rest : Bytes}
    (ends : ∀ char ∈ rest.head?, isdigit char = false) :
    addrPart wildcard (number ++ rest) = some (parsedNumber number) := by
  unfold parsedNumber
  rcases valid with ⟨filled, digits⟩ | ⟨rfl, rfl⟩
  · have plain : number ≠ [42] := by
      rintro rfl
      exact absurd (digits 42 List.mem_cons_self) (by decide)
    rw [if_neg plain]
    exact addrPart_digits digits filled ends
  · exact addrPart_wildcard

/-- No number goes on at a mark. -/
theorem mark_ends (mark : UInt8) (other : isdigit mark = false) (rest : Bytes) :
    ∀ char ∈ (mark :: rest).head?, isdigit char = false := by
  rintro char ⟨⟩
  exact other

/-- The node, and the point behind it. -/
theorem fidoLoop_node_point {number : Bytes} (valid : AddrNumber wildcard number) {last : Option Bytes}
    (valid' : ∀ point ∈ last, AddrNumber wildcard point) (domain : Option Bytes) {got : GotParts}
    (fresh : got.node = false ∧ got.point = false) (together : got.zone = true → got.net = true) (addr : Faddr) :
    addrparseFidoLoop wildcard (FidoForm.text (.node .bare number last) ++ domainText 64 domain)
        (FidoForm.text (.node .bare number last) ++ domainText 64 domain) got addr =
      some ({ addr with node := parsedNumber number, point := (last.map parsedNumber).getD addr.point },
        domainText 64 domain) := by
  have ends := domainText_ends 64 rfl domain
  cases last with
  | none =>
    rw [FidoForm.text, FidoFront.text, List.nil_append, fidoLoop_run _ _ _ _ valid.mixed.2, fidoLoop_end,
      fidoEnd_part _ _ (valid.read ends), if_neg (zone_needs_net together), fresh.1]
    rfl
  | some point =>
    have pointed := valid' point rfl
    rw [FidoForm.text, FidoFront.text, List.nil_append, List.append_assoc, List.cons_append,
      fidoLoop_run _ _ _ _ valid.mixed.2, fidoLoop_node _ _ _ (valid.read (mark_ends _ rfl _)), fresh.1,
      if_neg Bool.false_ne_true, fidoLoop_run _ _ _ _ pointed.mixed.2, fidoLoop_end,
      fidoEnd_part _ _ (pointed.read ends), if_neg (zone_needs_net together), fresh.2]
    rfl

/-- What stands before the node. -/
theorem FidoForm.text_front (front : FidoFront) (number : Bytes) (last : Option Bytes) :
    FidoForm.text (.node front number last) = front.text ++ FidoForm.text (.node .bare number last) := by
  cases last with
  | none => rfl
  | some point => rfl

/-- A text of the Fidonet form is taken as what it writes. -/
theorem FidoForm.loop {form : FidoForm} (valid : form.Valid wildcard) (domain : Option Bytes) :
    addrparseFidoLoop wildcard (form.text ++ domainText 64 domain) (form.text ++ domainText 64 domain) {}
        { inetform := false, zone := 2, net := 5020, node := 0, point := 0 } =
      some (form.addr parsedNumber none, domainText 64 domain) := by
  have ends := domainText_ends 64 rfl domain
  cases form with
  | point number =>
    have pointed : AddrNumber wildcard number := valid number List.mem_cons_self
    rw [text, List.cons_append, fidoLoop_dot_self, fidoLoop_run _ _ _ _ pointed.mixed.2, fidoLoop_end,
      fidoEnd_pointed, pointed.read ends]
    rfl
  | node front number last =>
    have noded : AddrNumber wildcard number := valid number (List.mem_append_right _ List.mem_cons_self)
    have pointed : ∀ point ∈ last, AddrNumber wildcard point := by
      intro point member
      refine valid point (List.mem_append_right _ (List.mem_cons_of_mem _ ?_))
      exact Option.mem_toList.mpr member
    rw [text_front]
    cases front with
    | bare => exact fidoLoop_node_point noded pointed domain ⟨rfl, rfl⟩ (fun zone => Bool.noConfusion zone) _
    | slash =>
      rw [FidoFront.text, List.singleton_append, List.cons_append, fidoLoop_slash_self]
      cases last with
      | none =>
        rw [text, FidoFront.text, List.nil_append, fidoLoop_run _ _ _ _ noded.mixed.2, fidoLoop_end,
          fidoEnd_slashed, noded.read ends]
        rfl
      | some point =>
        have pointed := pointed point rfl
        have node := noded.read (mark_ends 46 rfl (point ++ domainText 64 domain))
        rw [text, FidoFront.text, List.nil_append, List.append_assoc, List.cons_append,
          fidoLoop_run _ _ _ _ noded.mixed.2, fidoLoop_slashDot _ _ _ _ (addrPart_plain node 47 rfl),
          fidoLoop_node _ _ _ node, if_neg Bool.false_ne_true, fidoLoop_run _ _ _ _ pointed.mixed.2, fidoLoop_end,
          fidoEnd_part _ _ (pointed.read ends)]
        rfl
    | net second =>
      have second_ : AddrNumber wildcard second := valid second List.mem_cons_self
      rw [FidoFront.text, List.append_assoc, List.append_assoc, List.singleton_append,
        fidoLoop_run _ _ _ _ second_.mixed.2, fidoLoop_net _ _ _ (second_.read (mark_ends _ rfl _)),
        if_neg Bool.false_ne_true]
      exact fidoLoop_node_point noded pointed domain ⟨rfl, rfl⟩ (fun zone => Bool.noConfusion zone) _
    | zone first second =>
      have first_ : AddrNumber wildcard first := valid first List.mem_cons_self
      have second_ : AddrNumber wildcard second := valid second (List.mem_cons_of_mem _ List.mem_cons_self)
      rw [FidoFront.text, List.append_assoc, List.append_assoc, List.cons_append, List.append_assoc,
        List.singleton_append, fidoLoop_run _ _ _ _ first_.mixed.2, fidoLoop_zone _ _ _ (first_.read (mark_ends _ rfl _)),
        if_neg Bool.false_ne_true, fidoLoop_run _ _ _ _ second_.mixed.2,
        fidoLoop_net _ _ _ (second_.read (mark_ends _ rfl _)), if_neg Bool.false_ne_true]
      exact fidoLoop_node_point noded pointed domain ⟨rfl, rfl⟩ (fun _ => rfl) _

/-- A character of the Fidonet form before the domain. -/
def CoreChar (wildcard : Bool) (char : UInt8) : Prop :=
  addrChar wildcard char = true ∨ char = 58 ∨ char = 47 ∨ char = 46

/-- The text is of the Fidonet form, by its characters. -/
theorem addrForm_core {core : Bytes} (inside : ∀ char ∈ core, CoreChar wildcard char) (domain : Option Bytes) :
    addrForm wildcard (core ++ domainText 64 domain) false = some false := by
  induction core with
  | nil => exact addrForm_domain wildcard domain
  | cons char core inductionHypothesis =>
    have later := inductionHypothesis fun later member => inside later (List.mem_cons_of_mem _ member)
    rcases inside char List.mem_cons_self with part | mark
    · exact @addrForm_run wildcard [char] _ (by simpa using part) later
    · rw [List.cons_append, addrForm_separator mark]
      exact later

/-- The characters of a loose text. -/
theorem FidoLoose.core {zone net node : Bool} {core : Bytes} (loose : FidoLoose wildcard zone net node core) :
    ∀ char ∈ core, CoreChar wildcard char := by
  have run {run : Bytes} (mixed : Mixed wildcard run) : ∀ char ∈ run, CoreChar wildcard char :=
    fun char member => .inl (mixed.2 char member)
  have slashed {body : Bytes} (inside : ∀ char ∈ body, addrChar wildcard char = true ∨ char = 47) :
      ∀ char ∈ body, CoreChar wildcard char :=
    fun char member => (inside char member).imp_right fun mark => .inr (.inl mark)
  have pointed {body : Bytes} (inside : ∀ char ∈ body, addrChar wildcard char = true ∨ char = 46) :
      ∀ char ∈ body, CoreChar wildcard char :=
    fun char member => (inside char member).imp_right fun mark => .inr (.inr mark)
  have mark {char : UInt8} {body : Bytes} (here : char = 58 ∨ char = 47 ∨ char = 46)
      (later : ∀ char ∈ body, CoreChar wildcard char) : ∀ other ∈ char :: body, CoreChar wildcard other := by
    intro other member
    rcases List.mem_cons.mp member with rfl | member
    · exact .inr here
    · exact later other member
  have joined {front back : Bytes} (first : ∀ char ∈ front, CoreChar wildcard char)
      (second : ∀ char ∈ back, CoreChar wildcard char) : ∀ char ∈ front ++ back, CoreChar wildcard char :=
    fun char member => (List.mem_append.mp member).elim (first char) (second char)
  induction loose with
  | zone mixed _ later => exact joined (run mixed) (mark (.inl rfl) later)
  | net mixed _ later => exact joined (run mixed) (mark (.inr (.inl rfl)) later)
  | node mixed _ later => exact joined (run mixed) (mark (.inr (.inr rfl)) later)
  | slashed _ inside _ later =>
    exact mark (.inr (.inl rfl)) (joined (slashed inside) (mark (.inr (.inr rfl)) later))
  | last mixed _ => exact run mixed
  | lastSlashed _ inside _ => exact mark (.inr (.inl rfl)) (slashed inside)
  | lastPoint _ inside _ => exact mark (.inr (.inr rfl)) (pointed inside)
  | slashedPoint _ inside _ => exact mark (.inr (.inl rfl)) (mark (.inr (.inr rfl)) (pointed inside))

/-- What is well formed is loose. -/
theorem FidoForm.loose {form : FidoForm} (valid : form.Valid wildcard) :
    FidoLoose wildcard false false false form.text := by
  have plain {number : Bytes} (valid : AddrNumber wildcard number) (mark : UInt8) :
      ∀ char ∈ number, addrChar wildcard char = true ∨ char = mark := fun char member => .inl (valid.mixed.2 char member)
  have noded {number : Bytes} {last : Option Bytes} (valid : AddrNumber wildcard number)
      (valid' : ∀ point ∈ last, AddrNumber wildcard point) {zone net : Bool} (together : zone = true → net = true) :
      FidoLoose wildcard zone net false (text (.node .bare number last)) := by
    cases last with
    | none => exact .last valid.mixed together
    | some point => exact .node valid.mixed (.last (valid' point rfl).mixed together)
  cases form with
  | point number =>
    have pointed : AddrNumber wildcard number := valid number List.mem_cons_self
    exact .lastPoint pointed.mixed.begins (plain pointed 46) nofun
  | node front number last =>
    have node : AddrNumber wildcard number := valid number (List.mem_append_right _ List.mem_cons_self)
    have pointed : ∀ point ∈ last, AddrNumber wildcard point := by
      intro point member
      refine valid point (List.mem_append_right _ (List.mem_cons_of_mem _ ?_))
      exact Option.mem_toList.mpr member
    rw [text_front]
    cases front with
    | bare => exact noded node pointed nofun
    | slash =>
      cases last with
      | none => exact .lastSlashed node.mixed.begins (plain node 47) nofun
      | some point => exact .slashed node.mixed.begins (plain node 47) (.last (pointed point rfl).mixed nofun)
    | net second =>
      have second_ : AddrNumber wildcard second := valid second List.mem_cons_self
      rw [FidoFront.text, List.append_assoc]
      exact .net second_.mixed (noded node pointed nofun)
    | zone first second =>
      have first_ : AddrNumber wildcard first := valid first List.mem_cons_self
      have second_ : AddrNumber wildcard second := valid second (List.mem_cons_of_mem _ List.mem_cons_self)
      rw [FidoFront.text, List.append_assoc, List.cons_append, List.append_assoc]
      exact .zone first_.mixed (.net second_.mixed (noded node pointed fun _ => rfl))

/-- A text of the Fidonet form is parsed. -/
theorem FidoForm.parsed {form : FidoForm} (valid : form.Valid wildcard) (domain : Option Bytes) :
    ftnAddrparse (form.text ++ domainText 64 domain) wildcard = some (form.addr parsedNumber domain) := by
  have clear : (form.addr parsedNumber none).domain = [] := by
    cases form with
    | point number => rfl
    | node front number last => rfl
  have named : { form.addr parsedNumber none with domain := domainRead domain } = form.addr parsedNumber domain := by
    cases form with
    | point number => rfl
    | node front number last => rfl
  unfold ftnAddrparse
  rw [addrForm_core (loose valid).core]
  simp only [Bool.false_eq_true, if_false]
  rw [ftnAddrparseFido_of_loop clear (loop valid domain), named]

end FidonetForm

/-! ## The internet form -/

/-- The letter of a kind. -/
def InetKind.letter (capital : Bool) : InetKind → UInt8
  | .point => if capital then 80 else 112
  | .node => if capital then 70 else 102
  | .net => if capital then 78 else 110
  | .zone => if capital then 90 else 122

/-- A part of the internet form: a letter and what follows it. -/
structure InetPart where
  kind : InetKind
  capital : Bool := false
  body : Bytes

def InetPart.text (part : InetPart) : Bytes := part.kind.letter part.capital :: part.body

/-- The parts with points between them, and the domain behind them. -/
def inetText (domain : Option Bytes) : List InetPart → Bytes
  | [] => []
  | [part] => part.text ++ domainText 46 domain
  | part :: next :: rest => part.text ++ 46 :: inetText domain (next :: rest)

/-- The parts the parser allows: the node, the net and the zone in this order, as far as they are there, and
the point once among them. Nothing follows the zone. -/
def InetOrder (kinds : List InetKind) : Prop :=
  kinds.count .point ≤ 1 ∧ kinds.filter (· ≠ .point) <+: [.node, .net, .zone] ∧ .zone ∉ kinds.dropLast
  deriving Decidable

/-- A text of the internet form: `[pN.]fN.nN[.zN[.domain]]` with the parts the parser allows. -/
structure InetForm where
  parts : List InetPart
  domain : Option Bytes

def InetForm.text (form : InetForm) : Bytes := inetText form.domain form.parts

/-- The kinds of the parts. -/
def InetForm.kinds (form : InetForm) : List InetKind := form.parts.map InetPart.kind

/-- The parts are there, in order, and a domain follows a zone only. -/
structure InetForm.Ordered (form : InetForm) : Prop where
  filled : form.parts ≠ []
  order : InetOrder form.kinds
  domain : form.domain ≠ none → form.kinds.getLast? = some .zone

/-- A text the parser takes: every part begins with a digit, up to its point. -/
def InetForm.Loose (form : InetForm) : Prop :=
  form.Ordered ∧ ∀ part ∈ form.parts, Begins false part.body ∧ 46 ∉ part.body

/-- A well-formed text: every part is a number. -/
def InetForm.Valid (form : InetForm) : Prop := form.Ordered ∧ ∀ part ∈ form.parts, AddrNumber false part.body

/-- The address with a part of it. -/
def Faddr.setPart (addr : Faddr) (val : Int) : InetKind → Faddr
  | .point => { addr with point := val }
  | .node => { addr with node := val }
  | .net => { addr with net := val }
  | .zone => { addr with zone := val }

/-- The address written: parts that are missing have their defaults. -/
def InetForm.addr (read : Bytes → Int) (form : InetForm) : Faddr :=
  form.parts.foldl (fun addr part => addr.setPart (read part.body) part.kind)
    ⟨true, 2, 5020, 0, 0, domainRead form.domain⟩

section Internet

/-- The letters tell the kinds. -/
theorem inetKind_letter (kind : InetKind) (capital : Bool) : inetKind (kind.letter capital) = some kind := by
  cases kind <;> cases capital <;> rfl

theorem letter_of_inetKind {letter : UInt8} {kind : InetKind} (named : inetKind letter = some kind) :
    ∃ capital, letter = kind.letter capital := by
  unfold inetKind at named
  split at named
  · rename_i mark
    rw [Bool.or_eq_true, beq_iff_eq, beq_iff_eq] at mark
    obtain rfl := Option.some.inj named
    exact mark.elim (fun small => ⟨false, small⟩) fun large => ⟨true, large⟩
  · split at named
    · rename_i mark
      rw [Bool.or_eq_true, beq_iff_eq, beq_iff_eq] at mark
      obtain rfl := Option.some.inj named
      exact mark.elim (fun small => ⟨false, small⟩) fun large => ⟨true, large⟩
    · split at named
      · rename_i mark
        rw [Bool.or_eq_true, beq_iff_eq, beq_iff_eq] at mark
        obtain rfl := Option.some.inj named
        exact mark.elim (fun small => ⟨false, small⟩) fun large => ⟨true, large⟩
      · split at named
        · rename_i mark
          rw [Bool.or_eq_true, beq_iff_eq, beq_iff_eq] at mark
          obtain rfl := Option.some.inj named
          exact mark.elim (fun small => ⟨false, small⟩) fun large => ⟨true, large⟩
        · cases named

/-- What was read when parts of these kinds were read, none of them the zone. -/
structure PartsRead (before : List InetKind) (got : GotParts) : Prop where
  zone : got.zone = false
  point : before.count .point = got.point.toNat
  others : before.filter (· ≠ .point) = if got.node then (if got.net then [.node, .net] else [.node]) else []
  pair : got.net = true → got.node = true

/-- The parts that were read, and one more. -/
def GotParts.read (got : GotParts) : InetKind → GotParts
  | .point => { got with point := true }
  | .node => { got with node := true }
  | .net => { got with net := true }
  | .zone => { got with zone := true }

/-- Which part may be read next. -/
theorem PartsRead.order {before : List InetKind} {got : GotParts} (readings : PartsRead before got)
    (kind : InetKind) : InetOrder (before ++ [kind]) ↔
      match kind with
      | .point => got.point = false
      | .node => got.node = false
      | .net => got.node = true ∧ got.net = false
      | .zone => got.node = true ∧ got.net = true := by
  obtain ⟨_, point, others, pair⟩ := readings
  have unzoned : .zone ∉ before := by
    intro member
    have kept : InetKind.zone ∈ before.filter (· ≠ .point) := List.mem_filter.mpr ⟨member, rfl⟩
    rw [others] at kept
    split at kept
    · split at kept
      · simp at kept
      · simp at kept
    · simp at kept
  unfold InetOrder
  rw [List.count_append, List.filter_append, List.dropLast_concat, point, others]
  simp only [unzoned, not_false_eq_true, and_true]
  cases kind with
  | point =>
    cases got.point with
    | true => simp
    | false =>
      cases node : got.node with
      | true => cases got.net <;> simp
      | false => simp
  | node =>
    cases node : got.node with
    | true => cases got.net <;> cases got.point <;> decide
    | false => cases got.point <;> simp
  | net =>
    cases node : got.node with
    | true => cases got.net <;> cases got.point <;> decide
    | false => cases net : got.net <;> cases got.point <;> simp
  | zone =>
    cases node : got.node with
    | true => cases got.net <;> cases got.point <;> decide
    | false => cases net : got.net <;> cases got.point <;> simp

/-- A part is read where it is allowed behind the others. -/
theorem inetStep_order {before : List InetKind} {got : GotParts} (readings : PartsRead before got) (p : Bytes)
    (addr : Faddr) (val : Int) (kind : InetKind) :
    inetStep p got addr val kind =
      if InetOrder (before ++ [kind]) then
        some (kind == .zone, got.read kind,
          { addr.setPart val kind with domain := if kind = .zone then inetDomain p addr.domain else addr.domain })
      else none := by
  have allowed := readings.order kind
  cases kind with
  | point =>
    cases point : got.point with
    | true => simp [inetStep, allowed, point]
    | false => simp [inetStep, allowed, point, GotParts.read, Faddr.setPart]
  | node =>
    have paired := readings.pair
    cases node : got.node with
    | true => simp [inetStep, allowed, node]
    | false =>
      have net : got.net = false := by
        rw [node] at paired
        exact Bool.eq_false_iff.mpr fun net => Bool.noConfusion (paired net)
      simp [inetStep, allowed, node, net, readings.zone, GotParts.read, Faddr.setPart]
  | net =>
    cases node : got.node with
    | true =>
      cases net : got.net with
      | true => simp [inetStep, allowed, node, net]
      | false => simp [inetStep, allowed, node, net, readings.zone, GotParts.read, Faddr.setPart]
    | false => simp [inetStep, allowed, node]
  | zone =>
    cases node : got.node with
    | true =>
      cases net : got.net with
      | true => simp [inetStep, allowed, node, net, readings.zone, GotParts.read, Faddr.setPart]
      | false => simp [inetStep, allowed, node, net]
    | false => simp [inetStep, allowed, node]

/-- Behind a part that is not the zone others may follow. -/
theorem PartsRead.next {before : List InetKind} {got : GotParts} (readings : PartsRead before got) {kind : InetKind}
    (order : InetOrder (before ++ [kind])) (more : kind ≠ .zone) : PartsRead (before ++ [kind]) (got.read kind) := by
  have allowed := (readings.order kind).mp order
  obtain ⟨zone, point, others, pair⟩ := readings
  have added : (before ++ [kind]).filter (· ≠ .point) =
      before.filter (· ≠ .point) ++ [kind].filter (· ≠ .point) := List.filter_append ..
  cases kind with
  | zone => exact absurd rfl more
  | point =>
    refine ⟨zone, ?_, ?_, pair⟩
    · rw [List.count_append, point, allowed]
      rfl
    · rw [added, others]
      exact List.append_nil _
  | node =>
    have net : got.net = false := by
      rw [allowed] at pair
      exact Bool.eq_false_iff.mpr fun net => Bool.noConfusion (pair net)
    refine ⟨zone, ?_, ?_, fun _ => rfl⟩
    · rw [List.count_append, point]
      rfl
    · rw [added, others, allowed]
      simp [GotParts.read, net]
  | net =>
    refine ⟨zone, ?_, ?_, fun _ => allowed.1⟩
    · rw [List.count_append, point]
      rfl
    · rw [added, others, allowed.1, allowed.2]
      simp [GotParts.read, allowed.1]

/-- The front of an order is one. -/
theorem InetOrder.front {first second : List InetKind} (order : InetOrder (first ++ second)) : InetOrder first := by
  obtain ⟨once, others, unzoned⟩ := order
  rw [List.count_append] at once
  rw [List.filter_append] at others
  refine ⟨by omega, (List.prefix_append _ _).trans others, ?_⟩
  intro zoned
  apply unzoned
  cases second with
  | nil => rwa [List.append_nil]
  | cons kind second =>
    rw [List.dropLast_append_cons]
    exact List.mem_append_left _ (List.dropLast_subset _ zoned)

/-- A run ends in the front where what follows does not go on. -/
theorem takeWhile_ends (kind : UInt8 → Bool) (front : Bytes) {rest : Bytes}
    (ends : ∀ char ∈ rest.head?, kind char = false) : (front ++ rest).takeWhile kind = front.takeWhile kind := by
  induction front with
  | nil =>
    cases rest with
    | nil => rfl
    | cons char later => rw [List.nil_append, List.takeWhile_cons_of_neg (by simp [ends char rfl]), List.takeWhile_nil]
  | cons char front inductionHypothesis =>
    rw [List.cons_append, List.takeWhile_cons, List.takeWhile_cons, inductionHypothesis]

/-- What follows a digit does not count where a number begins. -/
theorem Begins.read {body rest : Bytes} (begins : Begins false body)
    (ends : ∀ char ∈ rest.head?, isdigit char = false) : addrPart false (body ++ rest) = some (parsedNumber body) := by
  obtain ⟨char, later, rfl, part⟩ := begins
  have digit : isdigit char = true := by
    unfold addrChar at part
    simpa using part
  have plain : char :: later ≠ [42] := by
    intro same
    obtain ⟨rfl, -⟩ := List.cons.inj same
    cases digit
  have taken := takeWhile_ends isdigit (char :: later) ends
  rw [List.cons_append, addrPart, if_pos digit, parsedNumber, if_neg plain]
  unfold addrstr2int atoi leadingNumber
  rw [← List.cons_append, taken]

/-- No letter is a point. -/
theorem InetPart.plain {part : InetPart} (clear : 46 ∉ part.body) : ∀ char ∈ part.text, char ≠ 46 := by
  intro char member
  rcases List.mem_cons.mp member with rfl | member
  · cases part.kind <;> cases part.capital <;> decide
  · rintro rfl
    exact clear member

/-- A part of the address and its domain are apart. -/
theorem Faddr.setPart_domain (addr : Faddr) (val : Int) (kind : InetKind) (domain : Bytes) :
    { addr with domain := domain }.setPart val kind = { addr.setPart val kind with domain := domain } := by
  cases kind <;> rfl

theorem Faddr.domain_setPart (addr : Faddr) (val : Int) (kind : InetKind) :
    (addr.setPart val kind).domain = addr.domain := by
  cases kind <;> rfl

/-- A part is read at its end. -/
theorem addrInetPart_order {before : List InetKind} {got : GotParts} (readings : PartsRead before got)
    {part : InetPart} (begins : Begins false part.body) {rest : Bytes}
    (ends : ∀ char ∈ rest.head?, isdigit char = false) (order : InetOrder (before ++ [part.kind])) (p : Bytes)
    (addr : Faddr) : addrInetPart p (part.text ++ rest) got addr =
      some (part.kind == .zone, got.read part.kind, { addr.setPart (parsedNumber part.body) part.kind with
        domain := if part.kind = .zone then inetDomain p addr.domain else addr.domain }) := by
  rw [InetPart.text, List.cons_append, addrInetPart_step, begins.read ends, inetKind_letter, Option.bind_some,
    Option.bind_some, inetStep_order readings, if_pos order]

/-- The parts are read one after another. -/
theorem inetLoop_parts {parts : List InetPart} {before : List InetKind} {got : GotParts}
    (readings : PartsRead before got) (filled : parts ≠ [])
    (order : InetOrder (before ++ parts.map InetPart.kind)) {domain : Option Bytes}
    (zoned : domain ≠ none → (parts.map InetPart.kind).getLast? = some .zone)
    (loose : ∀ part ∈ parts, Begins false part.body ∧ 46 ∉ part.body) {addr : Faddr} (clear : addr.domain = []) :
    addrparseInetLoop (inetText domain parts) (inetText domain parts) got addr =
      some (parts.foldl (fun addr part => addr.setPart (parsedNumber part.body) part.kind)
        { addr with domain := domainRead domain }) := by
  induction parts generalizing before got addr with
  | nil => exact absurd rfl filled
  | cons part rest inductionHypothesis =>
    obtain ⟨begins, plain⟩ := loose part List.mem_cons_self
    have ordered : InetOrder (before ++ [part.kind]) := by
      rw [List.map_cons, List.append_cons] at order
      exact order.front
    have parted (p : Bytes) {rest : Bytes} (ends : ∀ char ∈ rest.head?, isdigit char = false) :=
      addrInetPart_order readings begins ends ordered p addr
    cases rest with
    | nil =>
      rw [List.foldl_cons, List.foldl_nil, Faddr.setPart_domain]
      cases domain with
      | none =>
        have read := @parted [] [] nofun
        rw [List.append_nil] at read
        rw [inetText, domainText, List.append_nil, inetLoop_last (InetPart.plain plain), read, clear]
        simp [inetDomain, domainRead]
      | some domain =>
        have kind : part.kind = .zone := by
          simpa using zoned (by simp)
        have named : inetDomain (46 :: domain) [] = domainRead (some domain) := inetDomain_text (some domain)
        rw [inetText, domainText, inetLoop_part (InetPart.plain plain), parted _ (mark_ends 46 rfl _), kind, clear]
        simp only [BEq.rfl, if_true, named]
    | cons next rest =>
      have more : part.kind ≠ .zone := by
        intro zone
        apply order.2.2
        rw [List.map_cons, List.map_cons, List.dropLast_append_cons, List.dropLast_cons_cons, zone]
        exact List.mem_append_right _ List.mem_cons_self
      have apart : (part.kind == .zone) = false := beq_eq_false_iff_ne.mpr more
      have later := inductionHypothesis (readings.next ordered more) (List.cons_ne_nil _ _)
        (by rwa [List.map_cons, List.append_cons] at order) (fun there => by simpa using zoned there)
        (fun part member => loose part (List.mem_cons_of_mem _ member))
        ((addr.domain_setPart (parsedNumber part.body) part.kind).trans clear)
      rw [inetText, inetLoop_part (InetPart.plain plain), parted _ (mark_ends 46 rfl _), apart, if_neg more,
        ← Faddr.setPart_domain]
      refine later.trans ?_
      rw [← Faddr.setPart_domain]
      rfl

/-- The parser takes loose texts only. -/
theorem inetLoop_loose {text : Bytes} {before : List InetKind} {got : GotParts} (readings : PartsRead before got)
    {addr : Faddr} (accepted : (addrparseInetLoop text text got addr).isSome = true) :
    ∃ parts domain, text = inetText domain parts ∧ parts ≠ [] ∧ InetOrder (before ++ parts.map InetPart.kind) ∧
      (domain ≠ none → (parts.map InetPart.kind).getLast? = some .zone) ∧
      ∀ part ∈ parts, Begins false part.body ∧ 46 ∉ part.body := by
  -- a part that is read has its letter, begins with a digit, and is allowed
  have parted {letter : UInt8} {body rest p : Bytes} {got : GotParts} {before : List InetKind} {addr : Faddr}
      (readings : PartsRead before got) (apart : ∀ char ∈ rest.head?, isdigit char = false)
      (done : addrInetPart p (letter :: (body ++ rest)) got addr ≠ none) :
      ∃ part : InetPart, letter :: body = part.text ∧ part.body = body ∧ Begins false body ∧
        InetOrder (before ++ [part.kind]) := by
    rw [addrInetPart_step] at done
    cases read : addrPart false (body ++ rest) with
    | none => exact absurd (by rw [read]; rfl) done
    | some value =>
      cases named : inetKind letter with
      | none => exact absurd (by rw [read, named]; rfl) done
      | some kind =>
        obtain ⟨capital, rfl⟩ := letter_of_inetKind named
        have ordered : InetOrder (before ++ [kind]) := by
          by_contra unordered
          apply done
          rw [read, named, Option.bind_some, Option.bind_some, inetStep_order readings, if_neg unordered]
        refine ⟨⟨kind, capital, body⟩, rfl, rfl, ?_, ordered⟩
        obtain ⟨char, later, same, part⟩ := addrPart_some read
        cases body with
        | cons first later' =>
          obtain ⟨rfl, -⟩ := List.cons.inj same
          exact ⟨first, later', rfl, part⟩
        | nil =>
          rw [List.nil_append] at same
          have other := apart char (by rw [same]; rfl)
          rw [addrChar, other] at part
          cases part
  induction text using Library.segments_induction (46 : UInt8) generalizing before got addr with
  | last segment none_ =>
    have plain : ∀ char ∈ segment, char ≠ 46 := fun char member same => none_ (same ▸ member)
    rw [inetLoop_last plain] at accepted
    cases segment with
    | nil => cases accepted
    | cons letter body =>
      have done : addrInetPart [] (letter :: (body ++ [])) got addr ≠ none := by
        intro failed
        rw [List.append_nil] at failed
        rw [failed] at accepted
        cases accepted
      have ends : ∀ char ∈ ([] : Bytes).head?, isdigit char = false := by simp
      obtain ⟨part, same, rfl, begins, ordered⟩ := parted readings ends done
      refine ⟨[part], none, ?_, List.cons_ne_nil _ _, ordered, (absurd rfl ·), ?_⟩
      · rw [inetText, domainText, List.append_nil, same]
      · intro other member
        obtain rfl := List.mem_singleton.mp member
        exact ⟨begins, fun inside => none_ (List.mem_cons_of_mem _ inside)⟩
  | more segment rest none_ later =>
    have plain : ∀ char ∈ segment, char ≠ 46 := fun char member same => none_ (same ▸ member)
    rw [inetLoop_part plain] at accepted
    cases segment with
    | nil =>
      have nothing : addrInetPart (46 :: rest) (46 :: rest) got addr = none := by
        rw [addrInetPart_step]
        cases addrPart false rest with
        | none => rfl
        | some value => rfl
      rw [List.nil_append, nothing] at accepted
      cases accepted
    | cons letter body =>
      have done : addrInetPart (46 :: rest) (letter :: (body ++ 46 :: rest)) got addr ≠ none := by
        intro failed
        rw [List.cons_append, failed] at accepted
        cases accepted
      obtain ⟨part, same, rfl, begins, ordered⟩ := parted readings (mark_ends 46 rfl _) done
      have clear : 46 ∉ part.body := fun inside => none_ (List.mem_cons_of_mem _ inside)
      by_cases zone : part.kind = .zone
      · refine ⟨[part], some rest, ?_, List.cons_ne_nil _ _, ordered, fun _ => by simp [zone], ?_⟩
        · rw [inetText, domainText, same]
        · intro other member
          obtain rfl := List.mem_singleton.mp member
          exact ⟨begins, clear⟩
      · rw [same, addrInetPart_order readings begins (mark_ends 46 rfl _) ordered,
          beq_eq_false_iff_ne.mpr zone] at accepted
        obtain ⟨parts, domain, rfl, filled, order, zoned, loose⟩ := later (readings.next ordered zone) accepted
        obtain ⟨next, parts, rfl⟩ := List.exists_cons_of_ne_nil filled
        refine ⟨part :: next :: parts, domain, ?_, List.cons_ne_nil _ _, ?_, ?_, ?_⟩
        · rw [inetText, same]
        · rwa [List.map_cons, List.append_cons]
        · intro there
          simpa using zoned there
        · intro other member
          rcases List.mem_cons.mp member with rfl | member
          · exact ⟨begins, clear⟩
          · exact loose other member

/-- At the start nothing was read. -/
theorem partsRead_start : PartsRead [] {} := ⟨rfl, rfl, rfl, nofun⟩

/-- The text begins with the letter of the point or of the node. -/
theorem InetForm.Ordered.form {form : InetForm} (ordered : form.Ordered) (wildcard : Bool) :
    addrForm wildcard form.text false = some true := by
  obtain ⟨filled, order, -⟩ := ordered
  unfold InetForm.text InetForm.kinds at *
  obtain ⟨part, rest, same⟩ := List.exists_cons_of_ne_nil filled
  rw [same] at order ⊢
  have first := (partsRead_start.order part.kind).mp (by
    rw [List.map_cons, ← List.singleton_append] at order
    exact order.front)
  have begun : ∃ later, inetText form.domain (part :: rest) = part.kind.letter part.capital :: later := by
    cases rest with
    | nil => exact ⟨_, rfl⟩
    | cons next rest => exact ⟨_, rfl⟩
  obtain ⟨later, text⟩ := begun
  rw [text]
  cases kind : part.kind with
  | point => cases part.capital <;> rfl
  | node => cases part.capital <;> rfl
  | net =>
    rw [kind] at first
    cases first.1
  | zone =>
    rw [kind] at first
    cases first.1

/-- A loose text of the internet form is parsed. -/
theorem InetForm.Loose.parsed {form : InetForm} (loose : form.Loose) (wildcard : Bool) :
    ftnAddrparse form.text wildcard = some (form.addr parsedNumber) := by
  obtain ⟨ordered, parts⟩ := loose
  unfold ftnAddrparse
  rw [ordered.form]
  simp only [if_true]
  exact inetLoop_parts partsRead_start ordered.filled ordered.order ordered.domain parts rfl

/-- A well-formed text is a loose one. -/
theorem InetForm.Valid.loose {form : InetForm} (valid : form.Valid) : form.Loose := by
  refine ⟨valid.1, ?_⟩
  intro part member
  have number := valid.2 part member
  refine ⟨number.mixed.begins, ?_⟩
  intro dot
  have plain := number.mixed.2 46 dot
  cases plain

theorem InetForm.parsed {form : InetForm} (valid : form.Valid) {wildcard : Bool} :
    ftnAddrparse form.text wildcard = some (form.addr parsedNumber) := valid.loose.parsed wildcard

end Internet

/-! ## The grammar and the parser -/

/-- A text as the grammar has it. -/
inductive AddrForm
  | fido (form : FidoForm) (domain : Option Bytes)
  | inet (form : InetForm)

namespace AddrForm

def text : AddrForm → Bytes
  | .fido form domain => form.text ++ domainText 64 domain
  | .inet form => form.text

def Valid (wildcard : Bool) : AddrForm → Prop
  | .fido form _ => form.Valid wildcard
  | .inet form => form.Valid

def numbers : AddrForm → List Bytes
  | .fido form _ => form.numbers
  | .inet form => form.parts.map InetPart.body

/-- The address written. -/
def addr (read : Bytes → Int) : AddrForm → Faddr
  | .fido form domain => form.addr read domain
  | .inet form => form.addr read

end AddrForm

/-- The grammar: what a text writes, every number clamped to its range. -/
def Writes (wildcard : Bool) (text : Bytes) (addr : Faddr) : Prop :=
  ∃ form : AddrForm, form.Valid wildcard ∧ form.text = text ∧ form.addr clampedNumber = addr

/-- A text whose parts begin right and are there once each. -/
def LooseText (wildcard : Bool) (text : Bytes) : Prop :=
  (∃ core domain, text = core ++ domainText 64 domain ∧ FidoLoose wildcard false false false core) ∨
    ∃ form : InetForm, form.text = text ∧ form.Loose

/-- A number that is still in its range when it is cut to 32 bits, or that is cut to one above the range. -/
def CutRight (number : Bytes) : Prop :=
  leadingNumber number < 2 ^ 31 ∨
    (leadingNumber number < 2 ^ 63 - 1 ∧ 0x7fff ≤ leadingNumber number % 2 ^ 32 ∧
      leadingNumber number % 2 ^ 32 < 2 ^ 31)

section Grammar

variable {wildcard : Bool} {text : Bytes}

/-- Where a number is cut right, the parser reads it clamped. -/
theorem parsedNumber_clamped (number : Bytes) : parsedNumber number = clampedNumber number ↔ CutRight number := by
  unfold parsedNumber clampedNumber CutRight
  by_cases wild : number = [42]
  · rw [if_pos wild, if_pos wild, wild]
    exact iff_of_true rfl (.inl (by decide))
  · rw [if_neg wild, if_neg wild]
    unfold addrstr2int atoi Int.bmod
    simp only
    omega

/-- A part of the address. -/
def Faddr.partOf (addr : Faddr) : InetKind → Int
  | .point => addr.point
  | .node => addr.node
  | .net => addr.net
  | .zone => addr.zone

/-- A part is what it was set to, and the others are as before. -/
theorem Faddr.partOf_setPart (addr : Faddr) (val : Int) (kind other : InetKind) :
    (addr.setPart val kind).partOf other = if other = kind then val else addr.partOf other := by
  cases kind <;> cases other <;> rfl

/-- Parts in order are different. -/
theorem InetOrder.nodup {kinds : List InetKind} (order : InetOrder kinds) : kinds.Nodup := by
  obtain ⟨once, others, _⟩ := order
  rw [List.nodup_iff_count_le_one]
  intro kind
  by_cases point : kind = .point
  · rw [point]
    exact once
  · have kept : (kinds.filter (· ≠ .point)).count kind = kinds.count kind := by
      exact List.count_filter (by simpa using point)
    rw [← kept]
    exact (others.sublist.count_le kind).trans (List.nodup_iff_count_le_one.mp (by decide) kind)

/-- Each part is as its number says. -/
theorem partOf_parts {read : Bytes → Int} {parts : List InetPart} {part : InetPart} (listed : part ∈ parts)
    (distinct : (parts.map InetPart.kind).Nodup) {addr : Faddr} :
    (parts.foldl (fun addr part => addr.setPart (read part.body) part.kind) addr).partOf part.kind =
      read part.body := by
  have kept (parts : List InetPart) (addr : Faddr) (absent : part.kind ∉ parts.map InetPart.kind) :
      (parts.foldl (fun addr part => addr.setPart (read part.body) part.kind) addr).partOf part.kind =
        addr.partOf part.kind := by
    induction parts generalizing addr with
    | nil => rfl
    | cons first parts inductionHypothesis =>
      rw [List.map_cons, List.mem_cons, not_or] at absent
      rw [List.foldl_cons, inductionHypothesis _ absent.2, Faddr.partOf_setPart, if_neg absent.1]
  induction parts generalizing addr with
  | nil => cases listed
  | cons first parts inductionHypothesis =>
    rw [List.map_cons, List.nodup_cons] at distinct
    rw [List.foldl_cons]
    rcases List.mem_cons.mp listed with rfl | listed
    · rw [kept parts _ distinct.1, Faddr.partOf_setPart, if_pos rfl]
    · exact inductionHypothesis listed distinct.2

/-- The numbers settle the address. -/
theorem AddrForm.addr_congr {form : AddrForm} {read read' : Bytes → Int}
    (same : ∀ number ∈ form.numbers, read number = read' number) : form.addr read = form.addr read' := by
  cases form with
  | fido form domain =>
    cases form with
    | point number =>
      have one : read number = read' number := same number List.mem_cons_self
      simp only [addr, FidoForm.addr, one]
    | node front number last =>
      have one : read number = read' number := same number (List.mem_append_right _ List.mem_cons_self)
      have above : front.above read = front.above read' := by
        cases front with
        | bare => rfl
        | slash => rfl
        | net second =>
          have second_ : read second = read' second := same second List.mem_cons_self
          simp only [FidoFront.above, second_]
        | zone first second =>
          have first_ : read first = read' first := same first List.mem_cons_self
          have second_ : read second = read' second := same second (List.mem_cons_of_mem _ List.mem_cons_self)
          simp only [FidoFront.above, first_, second_]
      cases last with
      | none => simp only [addr, FidoForm.addr, one, above, Option.map_none]
      | some point =>
        have pointed : read point = read' point :=
          same point (List.mem_append_right _ (List.mem_cons_of_mem _ List.mem_cons_self))
        simp only [addr, FidoForm.addr, one, above, pointed, Option.map_some]
  | inet form =>
    refine List.foldl_ext _ _ _ ?_
    intro addr part member
    rw [same part.body (List.mem_map_of_mem member)]

/-- The address tells its numbers. -/
theorem AddrForm.numbers_told {form : AddrForm} (valid : form.Valid wildcard) {read read' : Bytes → Int}
    (same : form.addr read = form.addr read') : ∀ number ∈ form.numbers, read number = read' number := by
  cases form with
  | fido form domain =>
    cases form with
    | point number =>
      intro other member
      obtain rfl := List.mem_singleton.mp member
      exact congrArg Faddr.point same
    | node front number last =>
      have noded : read number = read' number := congrArg Faddr.node same
      have zoned : (front.above read).1 = (front.above read').1 := congrArg Faddr.zone same
      have netted : (front.above read).2 = (front.above read').2 := congrArg Faddr.net same
      have pointed : (last.map read).getD 0 = (last.map read').getD 0 := congrArg Faddr.point same
      intro other member
      rcases List.mem_append.mp member with before | behind
      · cases front with
        | bare => cases before
        | slash => cases before
        | net second =>
          obtain rfl := List.mem_singleton.mp before
          exact netted
        | zone first second =>
          rcases List.mem_cons.mp before with rfl | second_
          · exact zoned
          · obtain rfl := List.mem_singleton.mp second_
            exact netted
      · rcases List.mem_cons.mp behind with rfl | point
        · exact noded
        · cases last with
          | none => cases point
          | some number =>
            obtain rfl := List.mem_singleton.mp point
            exact pointed
  | inet form =>
    obtain ⟨ordered, _⟩ := valid
    intro number member
    obtain ⟨part, listed, rfl⟩ := List.mem_map.mp member
    have told := congrArg (fun addr : Faddr => addr.partOf part.kind) same
    simp only [addr, InetForm.addr] at told
    rwa [partOf_parts listed ordered.order.nodup, partOf_parts listed ordered.order.nodup] at told

/-- A text of the grammar is parsed. -/
theorem AddrForm.parsed {form : AddrForm} (valid : form.Valid wildcard) :
    ftnAddrparse form.text wildcard = some (form.addr parsedNumber) := by
  cases form with
  | fido form domain => exact form.parsed valid domain
  | inet form => exact form.parsed valid

/-- The parser takes the loose texts, and no others. -/
theorem parsed_iff_loose : (ftnAddrparse text wildcard).isSome = true ↔ LooseText wildcard text := by
  constructor
  · intro parsed
    unfold ftnAddrparse at parsed
    split at parsed
    · cases parsed
    · rename_i inetform _
      cases inetform with
      | true =>
        obtain ⟨parts, domain, rfl, filled, order, zoned, loose⟩ := inetLoop_loose partsRead_start parsed
        exact .inr ⟨⟨parts, domain⟩, rfl, ⟨filled, order, zoned⟩, loose⟩
      | false =>
        simp only [Bool.false_eq_true, if_false, ftnAddrparseFido, Option.isSome_map] at parsed
        exact .inl (accepted_loose parsed rfl)
  · rintro (⟨core, domain, rfl, loose⟩ | ⟨form, rfl, loose⟩)
    · unfold ftnAddrparse
      rw [addrForm_core loose.core]
      simp only [Bool.false_eq_true, if_false, ftnAddrparseFido, Option.isSome_map]
      exact loose.accepted domain _
    · rw [loose.parsed]
      rfl

end Grammar

/-- The parser agrees with the grammar on a text where the text is not merely loose, and where each number in
it is cut right. -/
theorem addrparse_grammar (wildcard : Bool) (text : Bytes) :
    (∀ addr, ftnAddrparse text wildcard = some addr ↔ Writes wildcard text addr) ↔
      (LooseText wildcard text → ∃ form : AddrForm, form.Valid wildcard ∧ form.text = text) ∧
        ∀ form : AddrForm, form.Valid wildcard → form.text = text → ∀ number ∈ form.numbers, CutRight number := by
  constructor
  · intro agree
    constructor
    · intro loose
      obtain ⟨addr, parsed⟩ := Option.isSome_iff_exists.mp (parsed_iff_loose.mpr loose)
      obtain ⟨form, valid, same, -⟩ := (agree addr).mp parsed
      exact ⟨form, valid, same⟩
    · intro form valid same number member
      have clamped := (agree _).mpr ⟨form, valid, same, rfl⟩
      have parsed := form.parsed valid
      rw [same, clamped] at parsed
      rw [← parsedNumber_clamped]
      exact form.numbers_told valid (Option.some.inj parsed).symm number member
  · rintro ⟨tidy, cut⟩ addr
    have kept (form : AddrForm) (valid : form.Valid wildcard) (same : form.text = text) :
        form.addr parsedNumber = form.addr clampedNumber :=
      form.addr_congr fun number member => (parsedNumber_clamped number).mpr (cut form valid same number member)
    constructor
    · intro parsed
      obtain ⟨form, valid, same⟩ := tidy (parsed_iff_loose.mp (by rw [parsed]; rfl))
      refine ⟨form, valid, same, ?_⟩
      rw [← kept form valid same, ← Option.some.injEq, ← form.parsed valid, same, parsed]
    · rintro ⟨form, valid, same, rfl⟩
      rw [← kept form valid same, ← same]
      exact form.parsed valid

/-- Text behind the number of a part is passed over: `f5x` is taken for the node 5. -/
theorem trailing_text_taken : ¬ ∀ (wildcard : Bool) (text : Bytes) (addr : Faddr),
    ftnAddrparse text wildcard = some addr ↔ Writes wildcard text addr := by
  intro agree
  have taken : ftnAddrparse (ascii "f5x") false = some ⟨true, 2, 5020, 5, 0, []⟩ := by
    decide
  obtain ⟨form, valid, same, -⟩ := (agree false (ascii "f5x") _).mp taken
  cases form with
  | fido form domain =>
    have fido := addrForm_core (form.loose valid).core domain
    rw [show form.text ++ domainText 64 domain = ascii "f5x" from same] at fido
    exact absurd fido (by decide)
  | inet form =>
    obtain ⟨⟨filled, _, _⟩, numbers⟩ := valid
    obtain ⟨part, rest, parts⟩ := List.exists_cons_of_ne_nil filled
    have text : inetText form.domain (part :: rest) = [102, 53, 120] := by
      rw [← parts]
      exact same
    have number := numbers part (by rw [parts]; exact List.mem_cons_self)
    have clear (tail : Bytes) : part.text ++ 46 :: tail ≠ [102, 53, 120] := by
      intro joined
      have dot : (46 : UInt8) ∈ part.text ++ 46 :: tail := List.mem_append_right _ List.mem_cons_self
      rw [joined] at dot
      exact absurd dot (by decide)
    cases rest with
    | cons next rest => exact clear _ text
    | nil =>
      rw [inetText] at text
      cases domain : form.domain with
      | some domain' => exact clear _ (domain ▸ text)
      | none =>
        rw [domain, domainText, List.append_nil] at text
        have body : part.body = [53, 120] := (List.cons.inj text).2
        rw [body] at number
        have plain := number.mixed.2 120 (by decide)
        cases plain

end Binkleyforce
