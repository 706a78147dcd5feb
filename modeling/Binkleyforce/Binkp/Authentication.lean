import Binkleyforce.Binkp.Challenge

/-!
# Whether the right password is accepted

A calling session answers the challenge with the digest of its password, or sends the
password itself where it knows of none. Both sides find the password in their
configuration, in buffers of different sizes: a calling session has room for 64
characters, the check of an address for 31.
-/

namespace Binkleyforce

open Library

/-! ## The check of an address -/

/-- The check finds the password right for the address. -/
def passwordMatches (conf : PasswordConf) (passwd : Bytes) (challenge : Option Bytes)
    (addr : Faddr) : Bool :=
  !sessionCheckAddr conf addr &&
    (sessionGetPassword conf addr passwordBufferSize).any (goodPasswd passwd challenge)

/-- The check finds it wrong. -/
def passwordFails (conf : PasswordConf) (passwd : Bytes) (challenge : Option Bytes)
    (addr : Faddr) : Bool :=
  !sessionCheckAddr conf addr &&
    (sessionGetPassword conf addr passwordBufferSize).any (!goodPasswd passwd challenge ·)

/-- One turn of the check succeeds where the password is right, and fails where it is
wrong. -/
theorem checkOne_right (conf : PasswordConf) (passwd : Bytes) (challenge : Option Bytes)
    (flags : CheckFlags) (entry : Sysaddr) :
    (sessionAddrsCheckOne conf passwd challenge flags entry).1.success =
        (flags.success || passwordMatches conf passwd challenge entry.addr) ∧
      (sessionAddrsCheckOne conf passwd challenge flags entry).1.isProtected =
        (flags.isProtected || passwordMatches conf passwd challenge entry.addr) ∧
      (sessionAddrsCheckOne conf passwd challenge flags entry).1.failure =
        (flags.failure || passwordFails conf passwd challenge entry.addr) := by
  unfold sessionAddrsCheckOne passwordMatches passwordFails
  cases sessionCheckAddr conf entry.addr with
  | true => simp
  | false =>
    cases sessionGetPassword conf entry.addr passwordBufferSize with
    | none => simp
    | some pbuf => cases right : goodPasswd passwd challenge pbuf <;> simp [right]

/-- The check succeeds where the password is right for one of the addresses, and fails
where it is wrong for one. -/
theorem checkLoop_right (conf : PasswordConf) (passwd : Bytes) (challenge : Option Bytes)
    (flags : CheckFlags) (addrs : List Sysaddr) :
    (sessionAddrsCheckLoop conf passwd challenge flags addrs).1.success =
        (flags.success || addrs.any fun entry => passwordMatches conf passwd challenge entry.addr) ∧
      (sessionAddrsCheckLoop conf passwd challenge flags addrs).1.isProtected =
        (flags.isProtected ||
          addrs.any fun entry => passwordMatches conf passwd challenge entry.addr) ∧
      (sessionAddrsCheckLoop conf passwd challenge flags addrs).1.failure =
        (flags.failure || addrs.any fun entry => passwordFails conf passwd challenge entry.addr) := by
  induction addrs generalizing flags with
  | nil => simp [sessionAddrsCheckLoop]
  | cons entry addrs inductionHypothesis =>
    obtain ⟨success, isProtected, failure⟩ := checkOne_right conf passwd challenge flags entry
    obtain ⟨later, still, fails⟩ := inductionHypothesis
      (sessionAddrsCheckOne conf passwd challenge flags entry).1
    simp only [sessionAddrsCheckLoop, List.any_cons, later, still, fails, success, isProtected,
      failure, Bool.or_assoc, and_self]

/-- What the remote's password is compared as: the answer to our challenge, or the
password itself. -/
def credentials (passwd challenge : Bytes) : Bytes × Option Bytes :=
  if challenge ≠ [] ∧ ascii "CRAM-MD5-" <+: passwd then (passwd.drop 9, some challenge)
  else (passwd, none)

/-- `binkp_auth_incoming` passes where the password is right for one of the addresses,
and notes it. -/
theorem authIncoming_right (conf : PasswordConf) (addrs : List Sysaddr) (passwd challenge : Bytes)
    (entry : Sysaddr) (present : entry ∈ addrs)
    (right : passwordMatches conf (credentials passwd challenge).1 (credentials passwd challenge).2
      entry.addr = true) (isProtected : Bool) :
    (binkpAuthIncoming conf addrs isProtected passwd challenge).rc = 0 := by
  have some : addrs.any (fun entry => passwordMatches conf (credentials passwd challenge).1
      (credentials passwd challenge).2 entry.addr) = true :=
    List.any_eq_true.mpr ⟨entry, present, right⟩
  have filled : addrs ≠ [] := List.ne_nil_of_mem present
  unfold binkpAuthIncoming
  unfold credentials at some
  split
  · rename_i cram
    rw [if_pos cram] at some
    simp [sessionAddrsCheck, filled, checkLoop_right, some]
  · rename_i plain
    rw [if_neg plain] at some
    simp [sessionAddrsCheck, filled, checkLoop_right, some]

/-- Over one address alone it notes whether the password is right for it. -/
theorem authIncoming_alone (conf : PasswordConf) (addr : Faddr) (passwd challenge : Bytes) :
    (binkpAuthIncoming conf [{ addr := addr }] false passwd challenge).isProtected =
      passwordMatches conf (credentials passwd challenge).1 (credentials passwd challenge).2 addr := by
  unfold binkpAuthIncoming credentials
  split <;> simp [sessionAddrsCheck, checkLoop_right]

/-! ## A call -/

/-- The challenge of `binkp_set_sysinfo`. -/
def binkpChallenge (rnd : UInt64) (pid : UInt32) (utm : UInt64) : Bytes :=
  [rnd.toUInt8, (rnd >>> 8).toUInt8, (rnd >>> 16).toUInt8, (rnd >>> 24).toUInt8,
    pid.toUInt8, (pid >>> 8).toUInt8,
    utm.toUInt8, (utm >>> 8).toUInt8, (utm >>> 16).toUInt8, (utm >>> 24).toUInt8]

/-- The password of `binkp_set_sysinfo`: that of the node which is called, in the field of
the system information. -/
def binkpPasswd (conf : BinkpConf) : Bytes :=
  (sessionGetPassword conf.password conf.nodeAddr Field.passwd.size).getD []

/-- One system calls another, and both have the same password configured for each
other. The configuration takes no empty password. -/
structure Call where
  caller : BinkpConf
  answerer : BinkpConf
  calling : Faddr
  passwd : Bytes
  filled : passwd ≠ []
  text : ∀ char ∈ passwd, char ≠ 0
  fits : passwd.length ≤ 64
  callerHas : (caller.password.password.find? fun entry =>
    ftnAddrcomp caller.nodeAddr entry.1).map Prod.snd = some passwd
  answererHas : (answerer.password.password.find? fun entry =>
    ftnAddrcomp calling entry.1).map Prod.snd = some passwd

/-- An answering session accepts the password for the address: the check of M_PWD
passes, and over this address alone it is the right password. -/
def BinkpState.AcceptsFor (conf : BinkpConf) (b : BinkpState) (arg : Pointer) (blockLength : Nat)
    (addr : Faddr) : Prop :=
  (b.authenticate conf arg blockLength).2 = true ∧
    (({ b with remoteaddrs := [{ addr := addr }], isProtected := false } : BinkpState).authenticate
      conf arg blockLength).1.isProtected = true

/-- A digest has 16 bytes. -/
theorem md5CramGet_length (secret challenge : Bytes) : (md5CramGet secret challenge).length = 16 := by
  simp [md5CramGet, md5Compute, md5Bytes]

namespace Call

variable (call : Call)

/-- What the check has room for. -/
def kept : Bytes := call.passwd.take (passwordBufferSize - 1)

/-- The check has no room for the whole password, but what the caller sends fits what
it has: the digests coincide, or the password itself reads as the right answer. -/
def Coincides (challenge : Bytes) (md5 : Bool) : Prop :=
  passwordBufferSize ≤ call.passwd.length ∧
    if md5 then md5CramGet call.passwd challenge = md5CramGet call.kept challenge
    else ascii "CRAM-MD5-" <+: call.passwd ∧
      strcasecmp (call.passwd.drop 9) (stringBinToHex (md5CramGet call.kept challenge)) = true

/-- The check finds the password the caller has: there is room for it, and sent plain
it does not read as the answer to a challenge. -/
def Kept (challenge : Bytes) (md5 : Bool) : Prop :=
  (call.passwd.length < passwordBufferSize ∧ (md5 = true ∨ ¬ ascii "CRAM-MD5-" <+: call.passwd)) ∨
    call.Coincides challenge md5

/-- The field of the caller holds the whole password. -/
theorem binkpPasswd_whole : binkpPasswd call.caller = call.passwd := by
  obtain ⟨entry, found, same⟩ := Option.map_eq_some_iff.mp call.callerHas
  have room : call.passwd.length ≤ Field.passwd.size - 1 := call.fits
  unfold binkpPasswd sessionGetPassword
  rw [found, Option.map_some, Option.getD_some, same, strnxcpy, cstring_whole _ call.text,
    List.take_of_length_le room]

/-- The check has what fits its buffer. -/
theorem sessionGetPassword_kept :
    sessionGetPassword call.answerer.password call.calling passwordBufferSize = some call.kept := by
  obtain ⟨entry, found, same⟩ := Option.map_eq_some_iff.mp call.answererHas
  unfold sessionGetPassword
  rw [found, Option.map_some, same, strnxcpy, cstring_whole _ call.text]
  rfl

/-- A password that fits is kept whole. -/
theorem kept_whole (short : call.passwd.length < passwordBufferSize) : call.kept = call.passwd :=
  List.take_of_length_le (by unfold passwordBufferSize at *; omega)

/-- An answer to the challenge is right where the digests agree. -/
theorem goodPasswd_answer (challenge : Bytes) :
    goodPasswd (stringBinToHex (md5CramGet call.passwd challenge)) (some challenge) call.kept =
        true ↔
      call.passwd.length < passwordBufferSize ∨ call.Coincides challenge true := by
  have filled : stringBinToHex (md5CramGet call.passwd challenge) ≠ [] := by
    intro empty
    have length := congrArg List.length empty
    rw [stringBinToHex_length, md5CramGet_length] at length
    cases length
  have digests : goodPasswd (stringBinToHex (md5CramGet call.passwd challenge)) (some challenge)
      call.kept = true ↔ md5CramGet call.passwd challenge = md5CramGet call.kept challenge := by
    simp only [goodPasswd, filled, ne_eq, not_false_eq_true, decide_true, Bool.true_and,
      strcasecmp_hex]
  rw [digests]
  constructor
  · intro same
    by_cases short : call.passwd.length < passwordBufferSize
    · exact .inl short
    · exact .inr ⟨Nat.le_of_not_lt short, same⟩
  · rintro (short | ⟨_, same⟩)
    · rw [call.kept_whole short]
    · exact same

/-- The password itself is right where there was room for it. -/
theorem goodPasswd_plain :
    goodPasswd call.passwd none call.kept = true ↔ call.passwd.length < passwordBufferSize := by
  have compared : goodPasswd call.passwd none call.kept = strcasecmp call.passwd call.kept := by
    simp [goodPasswd, call.filled]
  rw [compared, strcasecmp, beq_iff_eq]
  constructor
  · intro same
    have lengths := congrArg List.length same
    simp only [List.length_map, kept, List.length_take, passwordBufferSize] at lengths ⊢
    omega
  · intro short
    rw [call.kept_whole short]

/-- A password that reads as an answer is taken for one. -/
theorem goodPasswd_spelled (challenge : Bytes) (prefixed : ascii "CRAM-MD5-" <+: call.passwd) :
    goodPasswd (call.passwd.drop 9) (some challenge) call.kept = true ↔
      call.Coincides challenge false := by
  have long : strcasecmp (call.passwd.drop 9)
      (stringBinToHex (md5CramGet call.kept challenge)) = true → 41 ≤ call.passwd.length := by
    intro same
    have lengths := congrArg List.length (beq_iff_eq.mp same)
    rw [List.length_map, List.length_map, stringBinToHex_length, md5CramGet_length,
      List.length_drop] at lengths
    omega
  constructor
  · intro good
    simp only [goodPasswd, Bool.and_eq_true] at good
    have enough := long good.2
    exact ⟨by unfold passwordBufferSize; omega, prefixed, good.2⟩
  · rintro ⟨_, _, same⟩
    have enough := long same
    have filled : call.passwd.drop 9 ≠ [] := by
      intro empty
      have length := List.drop_eq_nil_iff.mp empty
      omega
    simp [goodPasswd, filled, same]

/-- What the caller sends as its password in a state that knows the challenge. -/
def answer (challenge : Bytes) (md5 : Bool) : Bytes :=
  if md5 then ascii "CRAM-MD5-" ++ stringBinToHex (md5CramGet call.passwd challenge)
  else call.passwd

/-- The check finds it right for the caller's address exactly where it kept the
password and may accept the address. -/
theorem passwordMatches_iff (challenge : Bytes) (generated : challenge ≠ []) (md5 : Bool) :
    passwordMatches call.answerer.password (credentials (call.answer challenge md5) challenge).1
        (credentials (call.answer challenge md5) challenge).2 call.calling = true ↔
      sessionCheckAddr call.answerer.password call.calling = false ∧ call.Kept challenge md5 := by
  simp only [passwordMatches, call.sessionGetPassword_kept, Option.any_some, Bool.and_eq_true,
    Bool.not_eq_true']
  refine and_congr_right fun _ => ?_
  cases md5 with
  | true =>
    have cram : credentials (call.answer challenge true) challenge =
        (stringBinToHex (md5CramGet call.passwd challenge), some challenge) :=
      if_pos ⟨generated, List.prefix_append _ _⟩
    rw [cram, call.goodPasswd_answer challenge]
    simp only [Kept, true_or, and_true]
  | false =>
    by_cases prefixed : ascii "CRAM-MD5-" <+: call.passwd
    · have spelled : credentials (call.answer challenge false) challenge =
          (call.passwd.drop 9, some challenge) := if_pos ⟨generated, prefixed⟩
      rw [spelled, call.goodPasswd_spelled challenge prefixed]
      simp only [Kept, prefixed, Bool.false_eq_true, not_true_eq_false, or_self, and_false,
        false_or]
    · have plain : credentials (call.answer challenge false) challenge = (call.passwd, none) :=
        if_neg fun read => prefixed read.2
      rw [plain, call.goodPasswd_plain]
      simp only [Kept, Coincides, prefixed, Bool.false_eq_true, not_false_eq_true, or_true,
        and_true, if_false, false_and, and_false, or_false]

/-- The answer is a text without NUL. -/
theorem answer_text (challenge : Bytes) (md5 : Bool) :
    ∀ char ∈ call.answer challenge md5, char ≠ 0 := by
  cases md5 with
  | false => exact call.text
  | true =>
    intro char member
    rcases List.mem_append.mp member with key | digit
    · exact whole_of_not_mem (show 0 ∉ ascii "CRAM-MD5-" by decide) char key
    · exact stringBinToHex_chars (fun char => char ≠ 0)
        (fun value small => (hexDigit_digit value small).2.2.2) _ char digit

end Call

/-- In the check of M_PWD the text of its block is compared. -/
theorem authenticate_text (conf : BinkpConf) (b : BinkpState) (text behind : Bytes)
    (whole : ∀ char ∈ text, char ≠ 0) (arg : Pointer)
    (arrived : BinkpState.blockCommand ((commandBlock .pwd text).payload ++ behind)
      (text.length + 1) (text.length + 1) = some (.pwd, arg)) :
    (b.authenticate conf arg (text.length + 1)).2 = decide ((binkpAuthIncoming conf.password
        b.remoteaddrs b.isProtected text b.localData.challenge).rc = 0) ∧
      (b.authenticate conf arg (text.length + 1)).1.isProtected = (binkpAuthIncoming
        conf.password b.remoteaddrs b.isProtected text b.localData.challenge).isProtected := by
  have copied : strnxcpy arg.memory (text.length + 1) = text := by
    unfold BinkpState.blockCommand at arrived
    obtain ⟨_, _, made⟩ := Option.map_eq_some_iff.mp arrived
    obtain ⟨_, rfl⟩ := Prod.mk.inj made
    obtain ⟨_, argument⟩ := BinkpLoop.fence_text ((commandBlock .pwd text).payload ++ behind)
      (text.length + 1) (by omega)
    have payload : ((commandBlock .pwd text).payload ++ behind).take (text.length + 1) =
        Bpmsg.pwd.toByte :: text := List.take_left' rfl
    rw [payload, List.tail_cons, cstring_whole text whole] at argument
    change (cstring ((BinkpState.fence _ _).drop 1)).take (text.length + 1 - 1) = text
    rw [argument]
    exact List.take_of_length_le (by omega)
  unfold BinkpState.authenticate copyField
  dsimp only
  rw [copied]
  exact ⟨rfl, rfl⟩

/-- Before that a calling session checks the addresses of the remote with its whole
password, in the same small buffer. A longer password is refused there, unless the
address called is one of its own. -/
theorem long_passwd_refused (call : Call) (b : BinkpState)
    (own : b.localData.passwd = binkpPasswd call.caller)
    (apart : sessionCheckAddr call.caller.password call.caller.nodeAddr = false)
    (long : passwordBufferSize ≤ call.passwd.length)
    (genuine : { addr := call.caller.nodeAddr } ∈ b.remoteaddrs) :
    (sessionAddrsCheck call.caller.password b.remoteaddrs b.isProtected b.localData.passwd none).rc =
      -1 := by
  obtain ⟨entry, found, same⟩ := Option.map_eq_some_iff.mp call.callerHas
  have different : ∀ pbuf : Bytes, pbuf.length < passwordBufferSize →
      goodPasswd call.passwd none pbuf = false := by
    intro pbuf short
    have compared : strcasecmp call.passwd pbuf = false := by
      refine beq_eq_false_iff_ne.mpr fun equal => ?_
      have lengths := congrArg List.length equal
      simp only [List.length_map] at lengths
      omega
    simp [goodPasswd, compared]
  have cut : ∀ addr pbuf, sessionGetPassword call.caller.password addr passwordBufferSize =
      some pbuf → pbuf.length < passwordBufferSize := by
    intro addr pbuf given
    obtain ⟨entry, _, rfl⟩ := Option.map_eq_some_iff.mp given
    exact strnxcpy_length _ _ (by decide)
  have wrong : b.remoteaddrs.any (fun entry =>
      passwordFails call.caller.password call.passwd none entry.addr) = true := by
    refine List.any_eq_true.mpr ⟨_, genuine, ?_⟩
    have given : sessionGetPassword call.caller.password call.caller.nodeAddr passwordBufferSize =
        some (strnxcpy entry.2 passwordBufferSize) := by
      unfold sessionGetPassword
      rw [found, Option.map_some]
    simp [passwordFails, apart, given, different _ (cut _ _ given)]
  have none : b.remoteaddrs.any (fun entry =>
      passwordMatches call.caller.password call.passwd none entry.addr) = false := by
    refine List.any_eq_false.mpr fun entry _ => ?_
    unfold passwordMatches
    cases given : sessionGetPassword call.caller.password entry.addr passwordBufferSize with
    | none => simp
    | some pbuf => simp [different pbuf (cut _ _ given)]
  rw [own, call.binkpPasswd_whole]
  simp [sessionAddrsCheck, List.ne_nil_of_mem genuine, checkLoop_right, wrong, none]

/-- The M_PWD of a calling session is the whole password, or its digest of the challenge
it knows. -/
theorem sendPassword_answer (call : Call) (b : BinkpState) (challenge text : Bytes) (last : Bool)
    (mode : b.mode = .outgoingHandshake) (own : b.localData.passwd = binkpPasswd call.caller)
    (told : Told challenge b.remoteData)
    (sent : b.sendPassword.2 = .block (commandBlock .pwd text) last) :
    text = call.answer challenge b.remoteData.options.md5 := by
  have apart : b.mode ≠ .incomingHandshake := by
    rw [mode]
    exact nofun
  rw [call.binkpPasswd_whole] at own
  unfold BinkpState.sendPassword at sent
  rw [if_neg apart] at sent
  split at sent
  · cases sent
  · split at sent
    · rename_i md5
      split at sent
      · cases sent
      · injection sent with same
        injection same with _ payload
        injection payload with _ same
        rw [← same, md5, own, told md5]
        rfl
    · rename_i plain
      injection sent with same
      injection same with _ payload
      injection payload with _ same
      rw [← same, own, Bool.eq_false_iff.mpr plain]
      rfl

/-- A call up to the M_PWD: a run of either side, with whatever challenge, in which the
calling session took blocks the answering one made; the M_PWD it makes next; and its
arrival at an answering session that was told the caller's address. -/
structure Exchange (call : Call) where
  rnd : UInt64
  pid : UInt32
  utm : UInt64
  callerData : BinkpSysinfo
  answererData : BinkpSysinfo
  own : callerData.passwd = binkpPasswd call.caller
  generated : answererData.challenge = binkpChallenge rnd pid utm
  callerInputs : List LoopInput
  answererInputs : List LoopInput
  caller : BinkpLoop
  answerer : BinkpLoop
  calls : run (BinkpLoop.step call.caller) (binkpOutgoing callerData {}) callerInputs = .more caller
  answers : run (BinkpLoop.step call.answerer) (binkpIncoming answererData {}) answererInputs =
    .more answerer
  heard : caller.handed ⊆ answerer.produced
  text : Bytes
  behind : Bytes
  last : Bool
  sent : caller.state.sendPassword.2 = .block (commandBlock .pwd text) last
  arg : Pointer
  arrived : BinkpState.blockCommand ((commandBlock .pwd text).payload ++ behind) (text.length + 1)
    (text.length + 1) = some (.pwd, arg)
  presented : ∃ entry ∈ answerer.state.remoteaddrs, entry.addr = call.calling

/-- The challenge of the answering session. -/
def Exchange.challenge {call : Call} (exchange : Exchange call) : Bytes :=
  binkpChallenge exchange.rnd exchange.pid exchange.utm

/-- The calling session was told to answer a challenge. -/
def Exchange.md5 {call : Call} (exchange : Exchange call) : Bool :=
  exchange.caller.state.remoteData.options.md5

/-- The M_PWD is accepted for the caller's address. -/
def Exchange.Accepted {call : Call} (exchange : Exchange call) : Prop :=
  exchange.answerer.state.AcceptsFor call.answerer exchange.arg (exchange.text.length + 1)
    call.calling

/-- It is accepted where the check finds the caller's answer right for the address. -/
theorem accepted_matches {call : Call} (exchange : Exchange call) :
    exchange.Accepted ↔ passwordMatches call.answerer.password
      (credentials (call.answer exchange.challenge exchange.md5) exchange.challenge).1
      (credentials (call.answer exchange.challenge exchange.md5) exchange.challenge).2
      call.calling = true := by
  obtain ⟨rnd, pid, utm, callerData, answererData, own, generated, callerInputs, answererInputs,
    caller, answerer, calls, answers, heard, text, behind, last, sent, arg, arrived, presented⟩ :=
    exchange
  have fits : answererData.challenge.length ≤ Field.challenge.size := by
    rw [generated]
    exact (show 10 ≤ Field.challenge.size by decide)
  obtain ⟨⟨mode, data⟩, known⟩ :=
    calling_told call.caller callerData (binkpChallenge rnd pid utm) callerInputs caller calls
  have told : Told (binkpChallenge rnd pid utm) caller.state.remoteData := known fun block member =>
    generated ▸ answering_tells call.answerer answererData fits answererInputs answerer answers
      block (heard member)
  have answering : answerer.state.localData.challenge = binkpChallenge rnd pid utm := by
    rw [answering_localData call.answerer answererData answererInputs answerer answers, generated]
  have answer := sendPassword_answer call caller.state (binkpChallenge rnd pid utm) text last mode
    (by rw [data, own]) told sent
  have whole : ∀ char ∈ text, char ≠ 0 := answer ▸ call.answer_text _ _
  unfold Exchange.Accepted Exchange.challenge Exchange.md5 BinkpState.AcceptsFor
  dsimp only
  rw [← answer]
  rw [(authenticate_text call.answerer answerer.state text behind whole arg arrived).1,
    (authenticate_text call.answerer _ text behind whole arg arrived).2]
  dsimp only
  rw [answering, authIncoming_alone, decide_eq_true_eq]
  refine ⟨And.right, fun accepted => ⟨?_, accepted⟩⟩
  obtain ⟨entry, member, same⟩ := presented
  exact authIncoming_right _ _ text _ entry member (same ▸ accepted) _

/-- In whatever runs of two systems with the same password, the M_PWD of the calling
session is accepted for its address exactly where the answering session may accept the
address and kept the password. -/
theorem passwd_accepted_iff (call : Call) (exchange : Exchange call) :
    exchange.Accepted ↔
      sessionCheckAddr call.answerer.password call.calling = false ∧
        call.Kept exchange.challenge exchange.md5 :=
  (accepted_matches exchange).trans
    (call.passwordMatches_iff exchange.challenge (List.cons_ne_nil _ _) exchange.md5)

/-- A node calls another one that it shares an address with, or not. -/
def callFor (passwd : Bytes) (shared : Bool) (filled : passwd ≠ []) (text : ∀ char ∈ passwd, char ≠ 0)
    (fits : passwd.length ≤ 64) : Call where
  caller :=
    { plainConf with
      nodeAddr := { zone := 2, net := 5020, node := 1 }
      localaddrs := [{ zone := 2, net := 5020, node := 2 }]
      password :=
        { address := if shared then [{ zone := 2, net := 5020, node := 1 }] else []
          password := [({ zone := 2, net := 5020, node := 1 }, passwd)] } }
  answerer :=
    { plainConf with
      localaddrs := [{ zone := 2, net := 5020, node := 1 }]
      password := { password := [({ zone := 2, net := 5020, node := 2 }, passwd)] } }
  calling := { zone := 2, net := 5020, node := 2 }
  passwd
  filled
  text
  fits
  callerHas := rfl
  answererHas := rfl

/-- The block with the challenge that the example's answering session sends, and the one
with its address. -/
def exampleLines : List LoopInput :=
  lineTurns { opening := { opens := fun _ => none } }
    [commandBlock .nul (challengeText (binkpChallenge 1 2 3)), commandBlock .adr (ascii "2:5020/1@")] 2

/-- The address of the calling session, and turns for all that the answering one says. -/
def exampleReplies : List LoopInput :=
  lineTurns { opening := { opens := fun _ => none } } [commandBlock .adr (ascii "2:5020/2@")] 10

/-- What the example's two runs have to show. -/
def ExampleShown (call : Call) (caller answerer : BinkpLoop) : Prop :=
  caller.handed ⊆ answerer.produced ∧ caller.state.remoteData.options.md5 = true ∧
    caller.state.sendPassword.2 =
      .block (commandBlock .pwd (call.answer (binkpChallenge 1 2 3) true)) false ∧
    ∃ entry ∈ answerer.state.remoteaddrs, entry.addr = call.calling

instance (call : Call) (caller answerer : BinkpLoop) :
    Decidable (ExampleShown call caller answerer) := by
  unfold ExampleShown
  infer_instance

/-- An M_PWD that arrives has an argument. -/
theorem pwd_arrives (text behind : Bytes) :
    ∃ arg, BinkpState.blockCommand ((commandBlock .pwd text).payload ++ behind) (text.length + 1)
      (text.length + 1) = some (.pwd, arg) := ⟨_, rfl⟩

/-- A call in which both sides get so far. -/
theorem exchange_exists (call : Call) (lines replies : List LoopInput)
    (shown : (run (BinkpLoop.step call.caller)
      (binkpOutgoing { passwd := binkpPasswd call.caller } {}) lines).Ends
        (fun caller => (run (BinkpLoop.step call.answerer)
          (binkpIncoming { challenge := binkpChallenge 1 2 3 } {}) replies).Ends
            (ExampleShown call caller) (fun _ _ => False)) (fun _ _ => False)) :
    ∃ exchange : Exchange call, exchange.rnd = 1 ∧ exchange.pid = 2 ∧ exchange.utm = 3 ∧
      exchange.caller.state.remoteData.options.md5 = true := by
  cases calls : run (BinkpLoop.step call.caller)
      (binkpOutgoing { passwd := binkpPasswd call.caller } {}) lines with
  | halt final result =>
    rw [calls] at shown
    exact shown.elim
  | more caller =>
    rw [calls] at shown
    cases answers : run (BinkpLoop.step call.answerer)
        (binkpIncoming { challenge := binkpChallenge 1 2 3 } {}) replies with
    | halt final result =>
      simp only [Turn.Ends, answers] at shown
    | more answerer =>
      simp only [Turn.Ends, answers] at shown
      obtain ⟨heard, md5, sent, presented⟩ := shown
      obtain ⟨arg, arrived⟩ := pwd_arrives (call.answer (binkpChallenge 1 2 3) true) []
      exact ⟨⟨1, 2, 3, { passwd := binkpPasswd call.caller }, { challenge := binkpChallenge 1 2 3 },
        rfl, rfl, lines, replies, caller, answerer, calls, answers, heard, _, [], false,
        sent, arg, arrived, presented⟩, rfl, rfl, rfl, md5⟩

/-- A short password is accepted. -/
theorem secret_accepted :
    ∃ (call : Call) (exchange : Exchange call), call.passwd = ascii "secret" ∧ exchange.Accepted := by
  obtain ⟨exchange, rnd, pid, utm, md5⟩ := exchange_exists
    (callFor (ascii "secret") false (by decide) (whole_of_not_mem (by decide))
      (by decide)) exampleLines exampleReplies
    (by decide +kernel)
  refine ⟨_, exchange, rfl, (passwd_accepted_iff _ exchange).mpr ?_⟩
  exact ⟨by decide, .inl ⟨by decide, .inl md5⟩⟩

/-- A password of 32 characters is not: of the two systems, which share an address, one
digests 32 characters and the other 31. -/
theorem long_passwd_rejected :
    ∃ (call : Call) (exchange : Exchange call), call.passwd.length = 32 ∧ ¬ exchange.Accepted := by
  obtain ⟨exchange, rnd, pid, utm, md5⟩ := exchange_exists
    (callFor (ascii "0123456789abcdef0123456789abcdef") true (by decide)
      (whole_of_not_mem (by decide)) (by decide))
    exampleLines exampleReplies (by decide +kernel)
  refine ⟨_, exchange, rfl, fun accepted => ?_⟩
  have right := (accepted_matches exchange).mp accepted
  unfold Exchange.challenge Exchange.md5 at right
  rw [rnd, pid, utm, md5] at right
  exact absurd right (by decide +kernel)

end Binkleyforce
