import Binkleyforce.Library.Distinct
import Binkleyforce.Emsi.RoundTrip
import Binkleyforce.Util.AddressText

/-!
# The flags of single addresses

The flag with a number is meant for the address at that place among those listed. The parser
counts among those it kept.
-/

namespace Binkleyforce

/-! ## Places -/

/-- What `ftn_addrcomp` compares. -/
def Faddr.key (addr : Faddr) : Int × Int × Int × Int := (addr.zone, addr.net, addr.node, addr.point)

/-- The addresses as the remote lists them. -/
def listedAddrs (text : Bytes) : List Bytes := splitTokens isspace text []

/-- The address listed at a place, where it can be parsed. -/
def nthAddr (text : Bytes) (n : Nat) : Option Faddr := (listedAddrs text)[n]?.bind (ftnAddrparse · false)

/-- All of the listed addresses can be parsed, and they are different. -/
def Different (listed : List Bytes) : Prop :=
  (∀ token ∈ listed, (ftnAddrparse token false).isSome = true) ∧
    ((listed.filterMap (ftnAddrparse · false)).map Faddr.key).Nodup

/-- Two addresses are the same exactly where their keys are. -/
theorem ftnAddrcomp_key (one other : Faddr) : ftnAddrcomp one other = decide (one.key = other.key) := by
  unfold ftnAddrcomp Faddr.key
  rw [Bool.eq_iff_iff]
  simp only [Bool.and_eq_true, beq_iff_eq, decide_eq_true_eq, Prod.mk.injEq]
  tauto

/-- The list of addresses is that of the different ones. -/
theorem linkAddrsAdd_distinct (addrs kept : List Faddr) :
    addrs.foldl linkAddrsAdd (kept.map fun addr => { addr := addr }) =
      (addrs.foldl (addNew Faddr.key) kept).map fun addr => { addr := addr } := by
  induction addrs generalizing kept with
  | nil => rfl
  | cons addr addrs later =>
    have step : linkAddrsAdd (kept.map fun addr => { addr := addr }) addr =
        (addNew Faddr.key kept addr).map fun addr => ({ addr := addr } : LinkAddr) := by
      unfold linkAddrsAdd addNew
      have same : ((kept.map fun addr => ({ addr := addr } : LinkAddr)).any
          fun present => ftnAddrcomp present.addr addr) =
          kept.any fun one => decide (one.key = addr.key) := by
        rw [List.any_map]
        exact congrArg kept.any (funext fun one => ftnAddrcomp_key one addr)
      rw [same]
      split
      · rfl
      · rw [List.map_append]
        rfl
    rw [List.foldl_cons, List.foldl_cons, step, later]

/-- The addresses the parser keeps of a field. -/
theorem parseAddrs_distinct (text : Bytes) :
    (parseAddrs text {}).remoteaddrs = (distinct Faddr.key (parsableAddrs text)).map fun addr => { addr := addr } :=
  linkAddrsAdd_distinct (parsableAddrs text) []

/-- There are no more tokens than characters. -/
theorem splitTokens_length (delim : UInt8 → Bool) (text token : Bytes) :
    (splitTokens delim text token).length ≤ text.length + 1 ∧
      (token = [] → (splitTokens delim text token).length ≤ text.length) := by
  induction text generalizing token with
  | nil =>
    cases token with
    | nil => exact ⟨Nat.zero_le _, fun _ => Nat.le_refl _⟩
    | cons => exact ⟨Nat.le_refl _, nofun⟩
  | cons char text later =>
    rw [splitTokens.eq_def]
    dsimp only
    split
    · have rest := (later []).2 rfl
      split
      case isTrue none_ =>
        rw [List.length_cons]
        exact ⟨by omega, fun _ => by omega⟩
      case isFalse some_ =>
        rw [List.length_cons, List.length_cons]
        refine ⟨by omega, fun none_ => ?_⟩
        rw [none_] at some_
        exact absurd rfl some_
    · have rest := (later (token ++ [char])).1
      rw [List.length_cons]
      exact ⟨by omega, fun _ => by omega⟩

/-- The place of a listed address among those the parser keeps: the place it is listed at, exactly
where those before it can be parsed and all are different. -/
theorem nthAddr_place {text : Bytes} {n : Nat} {addr : Faddr} (nth : nthAddr text n = some addr) :
    ∃ place, ((parseAddrs text {}).remoteaddrs[place]?).map (·.addr.key) = some addr.key ∧
      place < (parseAddrs text {}).remoteaddrs.length ∧
      (place = n ↔ Different ((listedAddrs text).take (n + 1))) := by
  obtain ⟨token, listed, parsed⟩ := Option.bind_eq_some_iff.mp nth
  obtain ⟨inside, isToken⟩ := List.getElem?_eq_some_iff.mp listed
  have split_ : listedAddrs text = (listedAddrs text).take n ++ token :: (listedAddrs text).drop (n + 1) := by
    rw [← isToken, ← List.drop_eq_getElem_cons, List.take_append_drop]
  have front : (listedAddrs text).take (n + 1) = (listedAddrs text).take n ++ [token] := by
    rw [List.take_add_one, listed]
    rfl
  have shape : parsableAddrs text = ((listedAddrs text).take n).filterMap (ftnAddrparse · false) ++
      addr :: ((listedAddrs text).drop (n + 1)).filterMap (ftnAddrparse · false) := by
    unfold parsableAddrs
    change (listedAddrs text).filterMap _ = _
    conv_lhs => rw [split_]
    rw [List.filterMap_append, List.filterMap_cons, parsed]
  obtain ⟨place, found, few, there⟩ := distinct_place Faddr.key
    (((listedAddrs text).take n).filterMap (ftnAddrparse · false))
    (((listedAddrs text).drop (n + 1)).filterMap (ftnAddrparse · false)) addr
  rw [← shape] at found
  rw [parseAddrs_distinct]
  have atPlace : ∀ i : Nat, (((distinct Faddr.key (parsableAddrs text)).map
      fun addr => ({ addr := addr } : LinkAddr))[i]?).map (fun one : LinkAddr => one.addr.key) =
      ((distinct Faddr.key (parsableAddrs text))[i]?).map Faddr.key := by
    intro i
    rw [List.getElem?_map, Option.map_map]
    rfl
  refine ⟨place, (atPlace place).trans found, ?_, ?_⟩
  · rw [List.length_map]
    by_contra far
    rw [List.getElem?_eq_none (by omega)] at found
    cases found
  · have all := List.length_filterMap_le (ftnAddrparse · false) ((listedAddrs text).take n)
    have size : ((listedAddrs text).take n).length = n := List.length_take_of_le (by omega)
    rw [Different, front, List.filterMap_append]
    have last : [token].filterMap (ftnAddrparse · false) = [addr] := by
      rw [List.filterMap_cons, parsed]
      rfl
    rw [last]
    constructor
    · rintro rfl
      have whole : (((listedAddrs text).take place).filterMap (ftnAddrparse · false)).length = place := by omega
      refine ⟨?_, there.mp whole.symm⟩
      intro one member
      rcases List.mem_append.mp member with before | last
      · exact List.filterMap_length_eq_length.mp (by rw [whole, size]) one before
      · rw [List.mem_singleton.mp last, parsed]
        rfl
    · rintro ⟨somes, nodup⟩
      rw [there.mpr nodup]
      have whole := (List.filterMap_length_eq_length (f := (ftnAddrparse · false))).mpr fun one member =>
        somes one (List.mem_append_left [token] member)
      omega

/-! ## Flags that are read -/

/-- The flags of the address at a place. -/
def flagsAt (state : EmsiState) (i : Nat) : Finset NFlag := (state.remoteaddrs[i]?.map (·.flags)).getD ∅

/-- A link code that carries a number: the letters of a flag and digits. -/
def Carries (p : Bytes) (flag : NFlag) (n : Nat) : Prop :=
  p.take 2 = flag.name ∧ p.drop 2 ≠ [] ∧ (p.drop 2).all isdigit = true ∧ leadingNumber (p.drop 2) = n

/-- The flag a link code sets, and the place of the address. -/
def mark (p : Bytes) (count : Nat) : Option (NFlag × Nat) :=
  if (plainLinkcode p).isSome then none else numberedFlag p count NFlag.compared

/-- The place of a flag is one of an address. -/
theorem numberedFlag_inside {p : Bytes} {count place : Nat} {flags : List NFlag} {flag : NFlag}
    (found : numberedFlag p count flags = some (flag, place)) : place < count := by
  induction flags with
  | nil => cases found
  | cons one flags later =>
    rw [numberedFlag] at found
    split at found
    case isTrue fits =>
      cases found
      simp only [Bool.and_eq_true, decide_eq_true_eq] at fits
      omega
    case isFalse => exact later found

/-- A link code sets its flag at its place, and nothing else. -/
theorem parseLinkcode_flags (state : EmsiState) (p : Bytes) :
    (parseLinkcode state p).remoteaddrs.length = state.remoteaddrs.length ∧
      ∀ i flag, flag ∈ flagsAt (parseLinkcode state p) i ↔
        flag ∈ flagsAt state i ∨ mark p state.remoteaddrs.length = some (flag, i) := by
  unfold parseLinkcode mark
  cases plainLinkcode p with
  | some set => exact ⟨rfl, fun i flag => (or_iff_left nofun).symm⟩
  | none =>
    rw [if_neg (by exact Bool.false_ne_true)]
    dsimp only
    cases numbered : numberedFlag p state.remoteaddrs.length NFlag.compared with
    | none => exact ⟨rfl, fun i flag => (or_iff_left nofun).symm⟩
    | some found =>
      obtain ⟨set, place⟩ := found
      have inside := numberedFlag_inside numbered
      refine ⟨List.length_modify _ _ _, ?_⟩
      intro i flag
      change flag ∈ (((setNflag state.remoteaddrs set place)[i]?).map (·.flags)).getD ∅ ↔
        flag ∈ ((state.remoteaddrs[i]?).map (·.flags)).getD ∅ ∨ _
      rw [setNflag, List.getElem?_modify]
      by_cases here : place = i
      · subst here
        rw [List.getElem?_eq_getElem inside]
        simp only [if_true, Option.map_some, Option.getD_some, Finset.mem_insert, Option.some.injEq,
          Prod.mk.injEq, and_true, Option.map_eq_map]
        rw [or_comm, eq_comm]
      · have apart : some (set, place) ≠ some (flag, i) := fun same =>
          here (congrArg Prod.snd (Option.some.inj same))
        rw [or_iff_left apart]
        simp [here]

/-- All link codes together set the flags of each of them. -/
theorem useLinkcodes_flags (p : Bytes) (state : EmsiState) :
    (useLinkcodes p state).remoteaddrs.length = state.remoteaddrs.length ∧
      ∀ i flag, flag ∈ flagsAt (useLinkcodes p state) i ↔
        flag ∈ flagsAt state i ∨ ∃ code ∈ commaTokens p, mark code state.remoteaddrs.length = some (flag, i) := by
  unfold useLinkcodes
  induction commaTokens p generalizing state with
  | nil => exact ⟨rfl, fun i flag => by simp⟩
  | cons code codes later =>
    obtain ⟨size, sets⟩ := parseLinkcode_flags state code
    obtain ⟨size', sets'⟩ := later (parseLinkcode state code)
    rw [List.foldl_cons]
    refine ⟨size'.trans size, fun i flag => ?_⟩
    rw [sets' i flag, sets i flag, size, or_assoc]
    refine or_congr_right ?_
    simp only [List.mem_cons, exists_eq_or_imp]

/-- The names of the flags are different. -/
theorem NFlag.name_inj {one other : NFlag} (same : one.name = other.name) : one = other := by
  cases one <;> cases other <;> first | rfl | exact absurd same (by decide)

/-- The number read of a code, where it fits. -/
theorem numberedFlag_carries {p : Bytes} {flag : NFlag} (name : p.take 2 = flag.name)
    (digits : (p.drop 2).all isdigit = true) (count : Nat) (flags : List NFlag) :
    numberedFlag p count flags =
      if flag ∈ flags ∧ 0 ≤ atoi (p.drop 2) ∧ atoi (p.drop 2) < count then
        some (flag, (atoi (p.drop 2)).toNat)
      else none := by
  induction flags with
  | nil => rw [if_neg (by simp), numberedFlag]
  | cons one flags later =>
    rw [numberedFlag]
    by_cases same : one = flag
    · subst same
      have read : nflgcmp p one.name = atoi (p.drop 2) := by
        rw [nflgcmp, if_pos (by rw [decide_eq_true name, digits]; rfl)]
      rw [read, later]
      by_cases fits : 0 ≤ atoi (p.drop 2) ∧ atoi (p.drop 2) < count
      · rw [if_pos (by simpa using fits), if_pos ⟨List.mem_cons_self, fits⟩]
      · rw [if_neg (by simpa using fits), if_neg fun all => fits all.2, if_neg fun all => fits all.2]
    · have read : nflgcmp p one.name = -1 := by
        rw [nflgcmp, if_neg]
        intro both
        rw [Bool.and_eq_true, decide_eq_true_eq, name] at both
        exact same (NFlag.name_inj both.1.symm)
      have among : flag ∈ one :: flags ↔ flag ∈ flags := by
        rw [List.mem_cons, or_iff_right fun is => same is.symm]
      rw [read, if_neg (by simp), later]
      simp only [among]

/-- A code that carries a number is none of the others. -/
theorem plainLinkcode_carries {p : Bytes} {flag : NFlag} (name : p.take 2 = flag.name)
    (digits : (p.drop 2).all isdigit = true) : plainLinkcode p = none := by
  unfold plainLinkcode
  rw [Option.map_eq_none_iff, List.find?_eq_none]
  intro code member same
  rw [decide_eq_true_eq] at same
  have others : ∀ code ∈ linkcodeTable.map (·.1), (code.drop 2).all isdigit = true →
      code.take 2 = ascii "RH" := by
    decide
  have is := others code.1 (List.mem_map.mpr ⟨code, member, rfl⟩) (same ▸ digits)
  rw [← same, name] at is
  cases flag <;> exact absurd is (by decide)

/-- The address a code with a number marks. -/
theorem mark_carries {p : Bytes} {flag : NFlag} {n : Nat} (carries : Carries p flag n) (count : Nat) :
    mark p count =
      if flag ≠ .pu ∧ 0 ≤ atoi (p.drop 2) ∧ atoi (p.drop 2) < count then
        some (flag, (atoi (p.drop 2)).toNat)
      else none := by
  obtain ⟨name, _, digits, _⟩ := carries
  have compared : flag ∈ NFlag.compared ↔ flag ≠ .pu := by
    cases flag <;> decide
  rw [mark, plainLinkcode_carries name digits, if_neg (by exact Bool.false_ne_true),
    numberedFlag_carries name digits count]
  simp only [compared]

/-- The flag with a number is set at the address listed there, and at no other. -/
def AppliedRight (text p : Bytes) (flag : NFlag) (n : Nat) : Prop :=
  ∀ i one, one ∈ flagsAt (parseLinkcode (parseAddrs text {}) p) i ↔
    one = flag ∧ ∃ addr, nthAddr text n = some addr ∧
      ((parseAddrs text {}).remoteaddrs[i]?).map (·.addr.key) = some addr.key

/-- Where a flag is applied right: it is not `PU`, and the addresses up to its own one can all be
parsed and are different; or there is no address for it, and either it is `PU` or its number does
not count one of the different addresses. -/
def FlagFits (text p : Bytes) (flag : NFlag) (n : Nat) : Prop :=
  match nthAddr text n with
  | some _ => flag ≠ .pu ∧ Different ((listedAddrs text).take (n + 1))
  | none => flag = .pu ∨
      ¬ (0 ≤ atoi (p.drop 2) ∧ atoi (p.drop 2) < ((parsableAddrs text).map Faddr.key).toFinset.card)

/-- No flag is set while the addresses are read. -/
theorem parseAddrs_flags (text : Bytes) (i : Nat) : flagsAt (parseAddrs text {}) i = ∅ := by
  unfold flagsAt
  rw [parseAddrs_distinct, List.getElem?_map]
  cases (distinct Faddr.key (parsableAddrs text))[i]? <;> rfl

/-- Two places have different addresses. -/
theorem parseAddrs_place {text : Bytes} {one other : Nat} {key : Int × Int × Int × Int}
    (first : ((parseAddrs text {}).remoteaddrs[one]?).map (·.addr.key) = some key)
    (second : ((parseAddrs text {}).remoteaddrs[other]?).map (·.addr.key) = some key) : one = other := by
  have nodup := distinct_nodup Faddr.key (parsableAddrs text)
  rw [parseAddrs_distinct, List.getElem?_map, Option.map_map] at first second
  have atOne : ((distinct Faddr.key (parsableAddrs text)).map Faddr.key)[one]? = some key := by
    rw [List.getElem?_map]
    exact first
  have atOther : ((distinct Faddr.key (parsableAddrs text)).map Faddr.key)[other]? = some key := by
    rw [List.getElem?_map]
    exact second
  obtain ⟨inside, _⟩ := List.getElem?_eq_some_iff.mp atOne
  exact (List.getElem?_inj inside nodup).mp (atOne.trans atOther.symm)

/-- A flag that carries a number is applied right exactly where it fits. -/
theorem appliedRight_iff {text p : Bytes} {flag : NFlag} {n : Nat} (carries : Carries p flag n)
    (short : text.length < 2 ^ 31) : AppliedRight text p flag n ↔ FlagFits text p flag n := by
  have count : (parseAddrs text {}).remoteaddrs.length = ((parsableAddrs text).map Faddr.key).toFinset.card := by
    rw [parseAddrs_distinct, List.length_map, distinct_length]
  have sets : ∀ i one, one ∈ flagsAt (parseLinkcode (parseAddrs text {}) p) i ↔
      (flag ≠ .pu ∧ 0 ≤ atoi (p.drop 2) ∧ atoi (p.drop 2) < (parseAddrs text {}).remoteaddrs.length) ∧
        one = flag ∧ (atoi (p.drop 2)).toNat = i := by
    intro i one
    rw [(parseLinkcode_flags (parseAddrs text {}) p).2 i one, parseAddrs_flags,
      or_iff_right (Finset.notMem_empty one), mark_carries carries]
    split
    case isTrue fits =>
      rw [Option.some.injEq, Prod.mk.injEq]
      exact ⟨fun ⟨is, at_⟩ => ⟨fits, is.symm, at_⟩, fun ⟨_, is, at_⟩ => ⟨is.symm, at_⟩⟩
    case isFalse misses => exact ⟨nofun, fun both => absurd both.1 misses⟩
  unfold AppliedRight FlagFits
  cases nth : nthAddr text n with
  | none =>
    rw [← count]
    dsimp only
    constructor
    · intro right
      by_contra wrong
      rw [not_or, not_not] at wrong
      have set := (right (atoi (p.drop 2)).toNat flag).mp ((sets _ _).mpr ⟨wrong, rfl, rfl⟩)
      obtain ⟨_, addr, is, _⟩ := set
      cases is
    · intro fits i one
      rw [sets i one]
      constructor
      · rintro ⟨⟨other, inside⟩, _⟩
        exact fits.elim (fun is => absurd is other) fun misses => absurd inside misses
      · rintro ⟨_, addr, is, _⟩
        cases is
  | some addr =>
    dsimp only
    obtain ⟨place, found, inside, there⟩ := nthAddr_place nth
    obtain ⟨token, listed, _⟩ := Option.bind_eq_some_iff.mp nth
    have small : n < (listedAddrs text).length := (List.getElem?_eq_some_iff.mp listed).1
    have few := (splitTokens_length isspace text []).2 rfl
    have number : atoi (p.drop 2) = n := by
      have few' : (listedAddrs text).length ≤ text.length := few
      rw [atoi_small (by rw [carries.2.2.2]; omega), carries.2.2.2]
    rw [number] at sets
    rw [← there]
    constructor
    · intro right
      have set := (right place flag).mpr ⟨rfl, addr, rfl, found⟩
      obtain ⟨⟨other, _⟩, _, same⟩ := (sets place flag).mp set
      exact ⟨other, by omega⟩
    · rintro ⟨known, rfl⟩ i one
      rw [sets i one]
      constructor
      · rintro ⟨_, rfl, same⟩
        obtain rfl : place = i := by omega
        exact ⟨rfl, addr, rfl, found⟩
      · rintro ⟨rfl, other, is, there⟩
        obtain rfl := Option.some.inj is
        have same := parseAddrs_place found there
        exact ⟨⟨known, by omega, by omega⟩, rfl, by omega⟩

/-! ## Flags that are written -/

/-- Codes with a comma behind each of them. -/
def joined (codes : List Bytes) : Bytes := codes.flatMap fun code => code ++ [44]

/-- The code of a flag of an address. -/
def NFlag.code (flag : NFlag) (number : Nat) : Bytes := flag.name ++ printNat number

/-- The names of the link codes that are set. -/
def Linkcodes.names (codes : Linkcodes) : List Bytes :=
  (codes.written.filter (·.1)).map fun code => (ascii code.2).dropLast

/-- The codes of the flags of all addresses. -/
def nflagCodes (localaddrs : List LinkAddr) : List Bytes :=
  localaddrs.zipIdx.flatMap fun (addr, number) =>
    (NFlag.all.filter fun flag => decide (flag ∈ addr.flags)).map fun flag => flag.code number

/-- A word in front of a comma is the next token. -/
theorem splitTokens_first (delim : UInt8 → Bool) (word rest token : Bytes) (sep : UInt8)
    (whole : ∀ char ∈ word, delim char = false) (some_ : token ++ word ≠ []) (ends : delim sep = true) :
    splitTokens delim (word ++ sep :: rest) token = (token ++ word) :: splitTokens delim rest [] := by
  induction word generalizing token with
  | nil =>
    rw [List.append_nil] at some_ ⊢
    rw [List.nil_append, splitTokens, if_pos ends, if_neg fun none_ => some_ (List.isEmpty_iff.mp none_)]
  | cons char word later =>
    rw [List.cons_append, splitTokens, if_neg (by rw [whole char List.mem_cons_self]; exact Bool.false_ne_true),
      later (token ++ [char]) (fun one member => whole one (List.mem_cons_of_mem char member)) (by simp),
      List.append_assoc]
    rfl

/-- The tokens of joined codes are the codes, with the last comma or without. -/
theorem commaTokens_joined (codes : List Bytes) (some_ : ∀ code ∈ codes, code ≠ [])
    (whole : ∀ code ∈ codes, 44 ∉ code) : commaTokens (closedCodes (joined codes)) = codes := by
  have noComma : ∀ code ∈ codes, ∀ char ∈ code, (fun char => decide (char = 44)) char = false := by
    intro code isCode char member
    refine decide_eq_false fun same => whole code isCode (same ▸ member)
  induction codes with
  | nil => rfl
  | cons code codes later =>
    have one := noComma code List.mem_cons_self
    have someOne := some_ code List.mem_cons_self
    have rest := later (fun one member => some_ one (List.mem_cons_of_mem code member))
      (fun one member => whole one (List.mem_cons_of_mem code member))
      (fun one member => noComma one (List.mem_cons_of_mem code member))
    unfold closedCodes at rest ⊢
    cases codes with
    | nil =>
      have last : (joined [code]).getLast? = some 44 := by
        rw [joined, List.flatMap_cons, List.flatMap_nil, List.append_nil]
        exact List.getLast?_concat
      rw [if_pos last, joined, List.flatMap_cons, List.flatMap_nil, List.append_nil, List.dropLast_concat]
      exact splitTokens_word _ code [] one (by simpa using someOne)
    | cons next codes =>
      have shape : joined (code :: next :: codes) = code ++ 44 :: joined (next :: codes) := by
        rw [joined, List.flatMap_cons, List.append_assoc]
        rfl
      have nonempty : joined (next :: codes) ≠ [] := by
        rw [joined, List.flatMap_cons]
        simp
      have same : (joined (code :: next :: codes)).getLast? = (joined (next :: codes)).getLast? := by
        rw [shape, List.getLast?_append_of_ne_nil _ (List.cons_ne_nil _ _), List.getLast?_cons_of_ne_nil nonempty]
      rw [same]
      split at rest
      case isTrue ends =>
        rw [if_pos ends, shape, List.dropLast_append_of_ne_nil (List.cons_ne_nil _ _),
          List.dropLast_cons_of_ne_nil nonempty]
        exact (splitTokens_first _ code _ [] 44 one (by simpa using someOne) rfl).trans
          (congrArg (code :: ·) rest)
      case isFalse open_ =>
        rw [if_neg open_, shape]
        exact (splitTokens_first _ code _ [] 44 one (by simpa using someOne) rfl).trans
          (congrArg (code :: ·) rest)

/-- Two lists of codes are joined one after the other. -/
theorem joined_append (first second : List Bytes) : joined (first ++ second) = joined first ++ joined second :=
  List.flatMap_append

/-- The text of the link codes and the flags is that of their names. -/
theorem linkcodesText_joined (locale : Locale) (localaddrs : List LinkAddr) (emsi : Emsi) :
    linkcodesText locale localaddrs emsi = joined (emsi.linkcodes.names ++ nflagCodes localaddrs) := by
  have codes : ∀ written : List (Bool × String),
      (∀ name ∈ written.map Prod.snd, PlainText (ascii name)) →
      (∀ name ∈ written.map Prod.snd, ascii name = (ascii name).dropLast ++ [44]) →
      codesText locale written =
        joined ((written.filter (·.1)).map fun code => (ascii code.2).dropLast) := by
    intro written plains commas
    induction written with
    | nil => rfl
    | cons code written later =>
      obtain ⟨set, name⟩ := code
      have plain := plains name List.mem_cons_self
      have comma := commas name List.mem_cons_self
      have rest := later (fun one member => plains one (List.mem_cons_of_mem name member))
        fun one member => commas one (List.mem_cons_of_mem name member)
      cases set with
      | false => exact rest
      | true =>
        change addStr locale (ascii name) ++ codesText locale written =
          ((ascii name).dropLast ++ [44]) ++ joined _
        rw [addStr_plainText locale plain, rest, ← comma]
  have flags : ∀ (addr : LinkAddr) (number : Nat) (all : List NFlag),
      (all.flatMap fun flag => if flag ∈ addr.flags then addNflag flag number else []) =
        joined ((all.filter fun flag => decide (flag ∈ addr.flags)).map fun flag => flag.code number) := by
    intro addr number all
    induction all with
    | nil => rfl
    | cons flag all later =>
      rw [List.flatMap_cons, later]
      by_cases set : flag ∈ addr.flags
      · rw [if_pos set, List.filter_cons, if_pos (decide_eq_true set)]
        rfl
      · rw [if_neg set, List.filter_cons, if_neg (by simpa using set)]
        rfl
  have commas : ∀ name ∈ (Linkcodes.written {}).map Prod.snd, ascii name = (ascii name).dropLast ++ [44] := by
    decide
  rw [joined_append, linkcodesText, codes _ emsi.linkcodes.plain commas]
  refine congrArg _ ?_
  unfold nflagsText nflagCodes joined
  rw [List.flatMap_assoc]
  exact congrArg (List.flatMap · _) (funext fun numbered => flags numbered.1 numbered.2 NFlag.all)

/-- The code of a flag carries its number. -/
theorem code_carries (flag : NFlag) (number : Nat) : Carries (flag.code number) flag number := by
  have two : flag.name.length = 2 := by cases flag <;> rfl
  have first : (flag.code number).take 2 = flag.name := by
    rw [NFlag.code, ← two, List.take_left]
  have last : (flag.code number).drop 2 = printNat number := by
    rw [NFlag.code, ← two, List.drop_left]
  refine ⟨first, ?_, ?_, ?_⟩
  · rw [last]
    exact printNat_ne_nil number
  · rw [last, List.all_eq_true]
    exact printNat_isdigit number
  · rw [last]
    have read := leadingNumber_printNat number [] nofun
    rwa [List.append_nil] at read

/-- The names of link codes set no flag. -/
theorem names_mark (codes : Linkcodes) (count : Nat) : ∀ name ∈ codes.names, mark name count = none := by
  have all : ∀ code ∈ (Linkcodes.written {}).map Prod.snd,
      (plainLinkcode (ascii code).dropLast).isSome = true ∨
        ∀ flag ∈ NFlag.compared, nflgcmp (ascii code).dropLast flag.name = -1 := by
    decide
  intro name member
  obtain ⟨code, isCode, rfl⟩ := List.mem_map.mp member
  have inTable : code.2 ∈ (Linkcodes.written {}).map Prod.snd := by
    change code.2 ∈ codes.written.map Prod.snd
    exact List.mem_map.mpr ⟨code, (List.mem_filter.mp isCode).1, rfl⟩
  unfold mark
  rcases all code.2 inTable with known | others
  · rw [if_pos known]
  split
  · rfl
  · have none_ : ∀ flags : List NFlag, (∀ flag ∈ flags, nflgcmp (ascii code.2).dropLast flag.name = -1) →
        numberedFlag (ascii code.2).dropLast count flags = none := by
      intro flags each
      induction flags with
      | nil => rfl
      | cons flag flags later =>
        rw [numberedFlag, each flag List.mem_cons_self, if_neg (by simp)]
        exact later fun one member => each one (List.mem_cons_of_mem flag member)
    exact none_ NFlag.compared others

/-- The tokens of what is written. -/
theorem commaTokens_written (locale : Locale) (localaddrs : List LinkAddr) (emsi : Emsi) :
    commaTokens (closedCodes (linkcodesText locale localaddrs emsi)) =
      emsi.linkcodes.names ++ nflagCodes localaddrs := by
  have names : ∀ name ∈ emsi.linkcodes.names, name ≠ [] ∧ 44 ∉ name := by
    have all : ∀ code ∈ (Linkcodes.written {}).map Prod.snd,
        (ascii code).dropLast ≠ [] ∧ 44 ∉ (ascii code).dropLast := by
      decide
    intro name member
    obtain ⟨code, isCode, rfl⟩ := List.mem_map.mp member
    refine all code.2 ?_
    change code.2 ∈ emsi.linkcodes.written.map Prod.snd
    exact List.mem_map.mpr ⟨code, (List.mem_filter.mp isCode).1, rfl⟩
  have flags : ∀ code ∈ nflagCodes localaddrs, code ≠ [] ∧ 44 ∉ code := by
    intro code member
    obtain ⟨⟨addr, number⟩, _, inAddr⟩ := List.mem_flatMap.mp member
    obtain ⟨flag, _, rfl⟩ := List.mem_map.mp inAddr
    refine ⟨List.append_ne_nil_of_right_ne_nil _ (printNat_ne_nil number), ?_⟩
    intro comma
    rcases List.mem_append.mp comma with inName | inNumber
    · cases flag <;> exact absurd inName (by decide)
    · exact absurd (printNat_isdigit number 44 inNumber) (by decide)
  rw [linkcodesText_joined]
  refine commaTokens_joined _ ?_ ?_
  · intro code member
    exact (List.mem_append.mp member).elim (fun is => (names code is).1) fun is => (flags code is).1
  · intro code member
    exact (List.mem_append.mp member).elim (fun is => (names code is).2) fun is => (flags code is).2

/-- Every written flag is read again with its number, but for `PU`. -/
theorem written_flags (locale : Locale) (localaddrs : List LinkAddr) (emsi : Emsi) (state : EmsiState)
    (room : localaddrs.length ≤ state.remoteaddrs.length) (small : localaddrs.length ≤ 2 ^ 31)
    (i : Nat) (one : NFlag) :
    one ∈ flagsAt (useLinkcodes (closedCodes (linkcodesText locale localaddrs emsi)) state) i ↔
      one ∈ flagsAt state i ∨ one ≠ .pu ∧ one ∈ flagsAt { remoteaddrs := localaddrs } i := by
  rw [(useLinkcodes_flags _ state).2 i one, commaTokens_written]
  refine or_congr_right ?_
  have readBack : ∀ flag number, number < localaddrs.length →
      (mark (flag.code number) state.remoteaddrs.length = some (one, i) ↔
        flag ≠ .pu ∧ flag = one ∧ number = i) := by
    intro flag number inside
    have carries := code_carries flag number
    have value : atoi ((flag.code number).drop 2) = number := by
      rw [atoi_small (by rw [carries.2.2.2]; omega), carries.2.2.2]
    rw [mark_carries carries, value]
    split
    case isTrue fits =>
      rw [Option.some.injEq, Prod.mk.injEq]
      exact ⟨fun ⟨is, at_⟩ => ⟨fits.1, is, by omega⟩, fun ⟨_, is, at_⟩ => ⟨is, by omega⟩⟩
    case isFalse misses => exact ⟨nofun, fun all => absurd ⟨all.1, by omega, by omega⟩ misses⟩
  constructor
  · rintro ⟨code, member, marked⟩
    rcases List.mem_append.mp member with name | flagged
    · rw [names_mark emsi.linkcodes _ code name] at marked
      cases marked
    · obtain ⟨⟨addr, number⟩, inAddrs, inAddr⟩ := List.mem_flatMap.mp flagged
      obtain ⟨flag, isSet, rfl⟩ := List.mem_map.mp inAddr
      have at_ := List.mk_mem_zipIdx_iff_getElem?.mp inAddrs
      obtain ⟨inside, _⟩ := List.getElem?_eq_some_iff.mp at_
      obtain ⟨other, rfl, rfl⟩ := (readBack flag number inside).mp marked
      refine ⟨other, ?_⟩
      change flag ∈ ((localaddrs[number]?).map (·.flags)).getD ∅
      rw [at_]
      exact of_decide_eq_true (List.mem_filter.mp isSet).2
  · rintro ⟨other, isSet⟩
    change one ∈ ((localaddrs[i]?).map (·.flags)).getD ∅ at isSet
    cases at_ : localaddrs[i]? with
    | none =>
      rw [at_] at isSet
      exact absurd isSet (Finset.notMem_empty one)
    | some addr =>
      rw [at_] at isSet
      obtain ⟨inside, _⟩ := List.getElem?_eq_some_iff.mp at_
      refine ⟨one.code i, List.mem_append_right _ (List.mem_flatMap.mpr
        ⟨(addr, i), List.mk_mem_zipIdx_iff_getElem?.mpr at_, ?_⟩), (readBack one i inside).mpr ⟨other, rfl, rfl⟩⟩
      refine List.mem_map.mpr ⟨one, List.mem_filter.mpr ⟨?_, decide_eq_true isSet⟩, rfl⟩
      cases one <;> decide

/-! ## Packets -/

/-- The fields of a packet the flags depend on: the addresses and the link codes. -/
def FlagFields (str text links : Bytes) : Prop :=
  ∃ rest passwd more left, getField str 123 125 = some (text, rest) ∧
    getField rest 123 125 = some (passwd, more) ∧ getField more 123 125 = some (links, left)

/-- A step that is taken has taken its first part. -/
theorem andThen_taken {first second : EmsiStep} {state later : EmsiState} {str left : Bytes}
    (taken : first.andThen second state str = .ok (later, left)) :
    ∃ middle rest, first state str = .ok (middle, rest) ∧ second middle rest = .ok (later, left) := by
  unfold EmsiStep.andThen at taken
  split at taken
  case h_1 middle rest found => exact ⟨middle, rest, found, taken⟩
  case h_2 => cases taken

/-- A field that was taken was found. -/
theorem fieldStep_taken {start close : UInt8} {use : Bytes → EmsiState → EmsiState} {state later : EmsiState}
    {str left : Bytes} (taken : fieldStep start close use state str = .ok (later, left)) :
    ∃ text, getField str start close = some (text, left) ∧ later = use text state := by
  unfold fieldStep at taken
  split at taken
  case h_1 text rest found =>
    cases taken
    exact ⟨text, takeField_iff.mp found, rfl⟩
  case h_2 => cases taken

/-- The addresses and their flags are left by the fields in front. -/
theorem parseEmsi_flags {str left : Bytes} {state : EmsiState} (taken : parseEmsi {} str = .ok (state, left)) :
    ∃ text links, FlagFields str text links ∧
      state.remoteaddrs = (useLinkcodes links (parseAddrs text {})).remoteaddrs := by
  have same : ∀ (links : Bytes) (one other : EmsiState), one.remoteaddrs = other.remoteaddrs →
      (useLinkcodes links one).remoteaddrs = (useLinkcodes links other).remoteaddrs := by
    intro links
    unfold useLinkcodes
    induction commaTokens links with
    | nil => exact fun one other same => same
    | cons code codes later =>
      intro one other same
      refine later _ _ ?_
      unfold parseLinkcode
      cases plainLinkcode code with
      | some set => exact same
      | none =>
        dsimp only
        rw [same]
        split
        · rfl
        · exact same
  have kept : ∀ (change : Emsi → Emsi) (state : EmsiState),
      (state.update change).remoteaddrs = state.remoteaddrs := fun _ _ => rfl
  obtain ⟨s1, r1, t1, taken⟩ := andThen_taken taken
  obtain ⟨s2, r2, t2, taken⟩ := andThen_taken taken
  obtain ⟨s3, r3, t3, taken⟩ := andThen_taken taken
  obtain ⟨s4, r4, t4, taken⟩ := andThen_taken taken
  obtain ⟨s5, r5, t5, taken⟩ := andThen_taken taken
  obtain ⟨s6, r6, t6, taken⟩ := andThen_taken taken
  obtain ⟨s7, r7, t7, taken⟩ := andThen_taken taken
  obtain ⟨s8, r8, t8, taken⟩ := andThen_taken taken
  obtain ⟨text, found1, rfl⟩ := fieldStep_taken t1
  obtain ⟨passwd, found3, rfl⟩ := fieldStep_taken t3
  obtain ⟨links, found4, rfl⟩ := fieldStep_taken t4
  obtain ⟨_, _, rfl⟩ := fieldStep_taken t5
  obtain ⟨_, _, rfl⟩ := fieldStep_taken t6
  obtain ⟨_, _, rfl⟩ := fieldStep_taken t7
  obtain ⟨_, _, rfl⟩ := fieldStep_taken t8
  obtain ⟨_, _, rfl⟩ := fieldStep_taken taken
  unfold needAddrs at t2
  split at t2
  · cases t2
  · cases t2
    refine ⟨text, links, ⟨_, passwd, _, _, found1, found3, found4⟩, ?_⟩
    rw [useMReg, kept, useMVer, kept, useMName, kept, useMPid, kept, useCompcodes, kept]
    refine same links _ _ ?_
    rw [usePasswd, kept]
    rfl

/-- The flags with numbers of a packet are applied right exactly where all of them fit, each of
them alone decides what is set, and the flags that are written are all read again with their
numbers exactly where `PU` is not among them. -/
theorem emsi_flags_numbered (state : EmsiState) :
    (∀ str left, str.length < 2 ^ 31 → parseEmsi {} str = .ok (state, left) →
      ∃ text links, FlagFields str text links ∧
        (∀ i one, one ∈ flagsAt state i ↔
          ∃ p ∈ commaTokens links, one ∈ flagsAt (parseLinkcode (parseAddrs text {}) p) i) ∧
        ((∀ p ∈ commaTokens links, ∀ flag n, Carries p flag n → AppliedRight text p flag n) ↔
          ∀ p ∈ commaTokens links, ∀ flag n, Carries p flag n → FlagFits text p flag n)) ∧
    (∀ locale localaddrs emsi, localaddrs.length ≤ state.remoteaddrs.length →
      localaddrs.length ≤ 2 ^ 31 → (∀ i, flagsAt state i = ∅) →
      ((∀ i, flagsAt (useLinkcodes (closedCodes (linkcodesText locale localaddrs emsi)) state) i =
          flagsAt { remoteaddrs := localaddrs } i) ↔
        ∀ addr ∈ localaddrs, .pu ∉ addr.flags)) := by
  constructor
  · intro str left short taken
    obtain ⟨text, links, fields, same⟩ := parseEmsi_flags taken
    have few : text.length < 2 ^ 31 := by
      obtain ⟨rest, _, _, _, first, _⟩ := fields
      have := getField_shorter first
      omega
    refine ⟨text, links, fields, ?_, ?_⟩
    · intro i one
      have union := (useLinkcodes_flags links (parseAddrs text {})).2 i one
      rw [parseAddrs_flags, or_iff_right (Finset.notMem_empty one)] at union
      have flags : flagsAt state i = flagsAt (useLinkcodes links (parseAddrs text {})) i := by
        unfold flagsAt
        rw [same]
      rw [flags, union]
      refine exists_congr fun p => and_congr_right fun _ => ?_
      rw [(parseLinkcode_flags (parseAddrs text {}) p).2 i one, parseAddrs_flags,
        or_iff_right (Finset.notMem_empty one)]
    · refine forall_congr' fun p => forall_congr' fun _ => forall_congr' fun flag => forall_congr' fun n =>
        forall_congr' fun carries => ?_
      exact appliedRight_iff carries few
  · intro locale localaddrs emsi room small fresh
    have sets := written_flags locale localaddrs emsi state room small
    constructor
    · intro same addr member isSet
      obtain ⟨i, inside, rfl⟩ := List.getElem_of_mem member
      have there : NFlag.pu ∈ flagsAt { remoteaddrs := localaddrs } i := by
        change NFlag.pu ∈ ((localaddrs[i]?).map (·.flags)).getD ∅
        rw [List.getElem?_eq_getElem inside]
        exact isSet
      rw [← same i, sets i .pu, fresh i] at there
      exact there.elim (Finset.notMem_empty _) fun both => both.1 rfl
    · intro none_ i
      refine Finset.ext fun one => ?_
      rw [sets i one, fresh i, or_iff_right (Finset.notMem_empty one)]
      refine and_iff_right_of_imp fun isSet => ?_
      rintro rfl
      change NFlag.pu ∈ ((localaddrs[i]?).map (·.flags)).getD ∅ at isSet
      cases at_ : localaddrs[i]? with
      | none =>
        rw [at_] at isSet
        exact Finset.notMem_empty _ isSet
      | some addr =>
        rw [at_] at isSet
        exact none_ addr (List.mem_of_getElem? at_) isSet

/-- The data for `{EMSI}` with addresses, link codes and nothing else. -/
def flagPacket (text links : Bytes) : Bytes :=
  braced text ++ (braced [] ++ (braced links ++
    (braced [] ++ (braced [] ++ (braced [] ++ (braced [] ++ (braced [] ++ [])))))))

/-- Its fields. -/
theorem flagPacket_fields {text links : Bytes} (first : PlainText text) (second : PlainText links) :
    FlagFields (flagPacket text links) text links :=
  ⟨_, [], _, _, takeField_iff.mp (takeField_plain {} _ first (follows_braced _ _)),
    takeField_iff.mp (takeField_plain {} _ nofun (follows_braced _ _)),
    takeField_iff.mp (takeField_plain {} _ second (follows_braced _ _))⟩

/-- The flags of a packet without gaps are set where they belong. -/
theorem emsi_flags_numbered_both : ∃ state left,
    parseEmsi {} (flagPacket (ascii "2:5020/1 2:5020/3") (ascii "HA1,PM0")) = .ok (state, left) ∧
    (∃ text links, FlagFields (flagPacket (ascii "2:5020/1 2:5020/3") (ascii "HA1,PM0")) text links ∧
      (∀ i one, one ∈ flagsAt state i ↔
        ∃ p ∈ commaTokens links, one ∈ flagsAt (parseLinkcode (parseAddrs text {}) p) i) ∧
      ((∀ p ∈ commaTokens links, ∀ flag n, Carries p flag n → AppliedRight text p flag n) ↔
        ∀ p ∈ commaTokens links, ∀ flag n, Carries p flag n → FlagFits text p flag n)) ∧
    ((∀ i, flagsAt (useLinkcodes (closedCodes (linkcodesText localeC
        [{ addr := { zone := 2 }, flags := {.ha} }] {})) { remoteaddrs := [{ addr := { zone := 2 } }] }) i =
      flagsAt { remoteaddrs := [{ addr := { zone := 2 }, flags := {.ha} }] } i) ↔
        ∀ addr ∈ [({ addr := { zone := 2 }, flags := {.ha} } : LinkAddr)], .pu ∉ addr.flags) := by
  have accepted : (parseEmsi {} (flagPacket (ascii "2:5020/1 2:5020/3") (ascii "HA1,PM0"))).toOption.isSome = true := by
    decide +kernel
  have fresh : ∀ i, flagsAt { remoteaddrs := [{ addr := { zone := 2 } }] } i = ∅ := by
    intro i
    cases i <;> rfl
  cases taken : parseEmsi {} (flagPacket (ascii "2:5020/1 2:5020/3") (ascii "HA1,PM0")) with
  | error =>
    rw [taken] at accepted
    cases accepted
  | ok next =>
    obtain ⟨state, left⟩ := next
    exact ⟨state, left, rfl, (emsi_flags_numbered state).1 _ left (by decide) taken,
      (emsi_flags_numbered _).2 _ _ _ (by decide) (by decide) fresh⟩

/-- The flag for the third address is lost where the second one cannot be parsed. -/
theorem flag_shifted : ¬ ∀ str state left text links, parseEmsi {} str = .ok (state, left) →
    FlagFields str text links → ∀ p ∈ commaTokens links, ∀ flag n, Carries p flag n →
      AppliedRight text p flag n := by
  intro all
  have accepted :
      (parseEmsi {} (flagPacket (ascii "2:5020/1 nobody 2:5020/3") (ascii "HA2,PU0"))).toOption.isSome = true := by
    decide +kernel
  cases taken : parseEmsi {} (flagPacket (ascii "2:5020/1 nobody 2:5020/3") (ascii "HA2,PU0")) with
  | error =>
    rw [taken] at accepted
    cases accepted
  | ok next =>
    obtain ⟨state, left⟩ := next
    have right := all _ state left _ _ taken (flagPacket_fields (by decide) (by decide))
      (ascii "HA2") (by decide) .ha 2
      ⟨by decide, by decide, by decide, by decide⟩
    have there := (right 1 .ha).mpr ⟨rfl, { zone := 2, net := 5020, node := 3 }, by decide,
      by decide⟩
    exact absurd there (by decide)

end Binkleyforce
