import Binkleyforce.Binkp.Invariants
import Binkleyforce.Binkp.ParseBounds
import Binkleyforce.Binkp.Output

/-!
# The challenge of a handshake

The answering session sends a random challenge as a hexadecimal option, and the calling
one decodes it. What a calling session knows of a challenge comes from the lines of
system information it took. Where these were made by an answering session, it is the
challenge of that session, in every run of both.
-/

namespace Binkleyforce

open Library

/-! ## Hexadecimal texts -/

/-- A digit written is read back, and is in lower case. -/
theorem hexDigit_digit (value : Nat) (small : value < 16) :
    hexDigit (hexdigits.getD value 0) = some (UInt8.ofNat value) ∧
      tolower (hexdigits.getD value 0) = hexdigits.getD value 0 ∧
      isspace (hexdigits.getD value 0) = false ∧ hexdigits.getD value 0 ≠ 0 := by
  have all : ∀ value : Fin 16, hexDigit (hexdigits.getD value 0) = some (UInt8.ofNat value) ∧
      tolower (hexdigits.getD value 0) = hexdigits.getD value 0 ∧
      isspace (hexdigits.getD value 0) = false ∧ hexdigits.getD value 0 ≠ 0 := by decide
  exact all ⟨value, small⟩

/-- A byte is sixteen times its upper half and the lower one. -/
theorem byte_halves (byte : UInt8) :
    UInt8.ofNat (byte.toNat / 16) * 16 + UInt8.ofNat (byte.toNat % 16) = byte := by
  have bound := byte.toNat_lt
  apply UInt8.toNat_inj.mp
  simp only [UInt8.toNat_add, UInt8.toNat_mul, UInt8.toNat_ofNat', UInt8.reduceToNat]
  omega

/-- What is written in hexadecimal is decoded again. -/
theorem stringHexToBin_binToHex (binary : Bytes) :
    stringHexToBin (stringBinToHex binary) = (binary, true) := by
  induction binary with
  | nil => rfl
  | cons byte binary inductionHypothesis =>
    have bound := byte.toNat_lt
    have upper := (hexDigit_digit (byte.toNat / 16) (by omega)).1
    have lower := (hexDigit_digit (byte.toNat % 16) (by omega)).1
    have text : stringBinToHex (byte :: binary) = hexdigits.getD (byte.toNat / 16) 0 ::
        hexdigits.getD (byte.toNat % 16) 0 :: stringBinToHex binary := rfl
    rw [text, stringHexToBin, upper, lower, inductionHypothesis]
    simp only [byte_halves]

/-- Each byte becomes two digits. -/
theorem stringBinToHex_length (binary : Bytes) :
    (stringBinToHex binary).length = 2 * binary.length := by
  induction binary with
  | nil => rfl
  | cons byte binary inductionHypothesis =>
    have text : stringBinToHex (byte :: binary) = hexdigits.getD (byte.toNat / 16) 0 ::
        hexdigits.getD (byte.toNat % 16) 0 :: stringBinToHex binary := rfl
    simp only [text, List.length_cons, inductionHypothesis]
    omega

/-- What holds of the digits holds of every character of a hexadecimal text. -/
theorem stringBinToHex_chars (property : UInt8 → Prop)
    (digits : ∀ value < 16, property (hexdigits.getD value 0)) (binary : Bytes) :
    ∀ char ∈ stringBinToHex binary, property char := by
  intro char member
  obtain ⟨byte, _, digit⟩ := List.mem_flatMap.mp member
  have bound := byte.toNat_lt
  simp only [List.mem_cons, List.not_mem_nil, or_false] at digit
  rcases digit with rfl | rfl
  · exact digits _ (by omega)
  · exact digits _ (by omega)

/-- Two digests agree where their texts do, in whatever case. -/
theorem strcasecmp_hex (left right : Bytes) :
    strcasecmp (stringBinToHex left) (stringBinToHex right) = true ↔ left = right := by
  have lower : ∀ binary, (stringBinToHex binary).map tolower = stringBinToHex binary := by
    intro binary
    have same := stringBinToHex_chars (fun char => tolower char = char)
      (fun value small => (hexDigit_digit value small).2.1) binary
    exact (List.map_congr_left same).trans (List.map_id _)
  unfold strcasecmp
  rw [lower, lower, beq_iff_eq]
  constructor
  · intro same
    have decoded := congrArg stringHexToBin same
    rw [stringHexToBin_binToHex, stringHexToBin_binToHex] at decoded
    exact congrArg Prod.fst decoded
  · exact congrArg stringBinToHex

/-! ## The challenge on its way -/

/-- What the remote's system information says about a challenge. -/
def BinkpSysinfo.known (remote : BinkpSysinfo) : Bool × Bytes :=
  (remote.options.md5, remote.challenge)

/-- A calling session knows this challenge, if it was told to answer one. -/
def Told (challenge : Bytes) (remote : BinkpSysinfo) : Prop :=
  remote.options.md5 = true → remote.challenge = challenge

/-- A line of system information tells no other challenge. -/
def TellsOnly (challenge text : Bytes) : Prop :=
  ∀ (remote : BinkpSysinfo) (buffer : Pointer), buffer.text = cstring text →
    Told challenge remote → Told challenge (binkpProcessNUL remote buffer).1

/-- Only what is known matters. -/
theorem Told.of_known {challenge : Bytes} {before after : BinkpSysinfo}
    (told : Told challenge before) (same : after.known = before.known) : Told challenge after := by
  obtain ⟨option, bytes⟩ := Prod.mk.inj same
  intro md5
  exact bytes.trans (told (option.symm.trans md5))

theorem processVER_known (remote : BinkpSysinfo) (buffer : Pointer) :
    (binkpProcessVER remote buffer).1.known = remote.known := by
  unfold binkpProcessVER
  dsimp only
  repeat' split
  all_goals rfl

theorem processTRF_known (remote : BinkpSysinfo) (buffer : Pointer) :
    (binkpProcessTRF remote buffer).known = remote.known := by
  unfold binkpProcessTRF
  repeat' split
  all_goals rfl

/-- A line without options tells no challenge. -/
theorem processNUL_known (remote : BinkpSysinfo) (buffer : Pointer)
    (plain : ¬ ascii "OPT " <+: buffer.text) :
    (binkpProcessNUL remote buffer).1.known = remote.known := by
  unfold binkpProcessNUL
  dsimp only
  repeat' split
  all_goals first
    | rfl
    | exact absurd ‹_› plain
    | exact processVER_known remote _
    | exact processTRF_known remote _

/-- The options of a line are those behind its keyword. -/
theorem processNUL_options (text : Bytes) (remote : BinkpSysinfo) (buffer : Pointer)
    (line : buffer.text = ascii "OPT " ++ text) :
    ∃ opt, (binkpProcessNUL remote buffer).1 =
      (binkpParseOptionList (splitTokens isspace text []) { remote with opt }).1 := by
  have value : cstring (buffer.memory.drop 4) = text := by
    have whole : cstring buffer.memory = ascii "OPT " ++ text := line
    rw [cstring_drop _ 4 (by simp [whole, ascii]), whole]
    rfl
  have keyword : ∀ key rest : Bytes, key.head? ≠ some 79 → key ≠ [] →
      ¬ key <+: ascii "OPT " ++ rest := by
    intro key rest other some
    cases key with
    | nil => exact absurd rfl some
    | cons char key =>
      rintro ⟨tail, same⟩
      exact other (congrArg List.head? same)
  unfold binkpProcessNUL
  simp only [line]
  rw [if_neg (keyword _ _ (by decide) (by decide)), if_neg (keyword _ _ (by decide) (by decide)),
    if_neg (keyword _ _ (by decide) (by decide)), if_neg (keyword _ _ (by decide) (by decide)),
    if_neg (keyword _ _ (by decide) (by decide)), if_neg (keyword _ _ (by decide) (by decide)),
    if_pos (List.prefix_append _ _)]
  unfold binkpProcessOPT binkpParseOptions
  simp only [Pointer.text, Pointer.advance, value]
  split <;> exact ⟨_, rfl⟩

/-- The line with the challenge. -/
def challengeText (challenge : Bytes) : Bytes :=
  ascii "OPT CRAM-MD5-" ++ stringBinToHex challenge

/-- The option with a challenge that fits is decoded to it. -/
theorem parseOption_challenge (challenge : Bytes) (fits : challenge.length ≤ Field.challenge.size)
    (remote : BinkpSysinfo) :
    (binkpParseOption remote (ascii "CRAM-MD5-" ++ stringBinToHex challenge)).1.known =
      (true, challenge) := by
  have types : ((ascii "CRAM-MD5-" ++ stringBinToHex challenge).drop 5).takeWhile (· ≠ 45) =
      ascii "MD5" := rfl
  have digits : ((ascii "CRAM-MD5-" ++ stringBinToHex challenge).drop 5).dropWhile (· ≠ 45) =
      45 :: stringBinToHex challenge := rfl
  have short : ¬ (stringBinToHex challenge).length > 2 * Field.challenge.size := by
    rw [stringBinToHex_length]
    omega
  have other : ∀ option : Bytes, option[2]? ≠ some 65 →
      ascii "CRAM-MD5-" ++ stringBinToHex challenge ≠ option := by
    rintro option differs rfl
    exact differs rfl
  unfold binkpParseOption
  rw [if_neg (other _ (by decide)), if_neg (other _ (by decide)), if_neg (other _ (by decide)),
    if_neg (other _ (by decide)), if_pos ⟨ascii "MD5-" ++ stringBinToHex challenge, rfl⟩]
  simp only [types, digits, if_neg short, stringHexToBin_binToHex]
  rfl

/-- The line with the challenge tells it. -/
theorem tellsOnly_challenge (challenge : Bytes) (fits : challenge.length ≤ Field.challenge.size) :
    TellsOnly challenge (challengeText challenge) := by
  intro remote buffer line _
  have option : ∀ char ∈ ascii "CRAM-MD5-" ++ stringBinToHex challenge,
      isspace char = false ∧ char ≠ 0 := by
    intro char member
    rcases List.mem_append.mp member with key | digit
    · have graphic : (ascii "CRAM-MD5-").all (fun char => isspace char = false ∧ char ≠ 0) = true := by decide
      exact of_decide_eq_true (List.all_eq_true.mp graphic char key)
    · exact stringBinToHex_chars (fun char => isspace char = false ∧ char ≠ 0)
        (fun value small => (hexDigit_digit value small).2.2) challenge char digit
  have whole : cstring (challengeText challenge) =
      ascii "OPT " ++ (ascii "CRAM-MD5-" ++ stringBinToHex challenge) := by
    refine cstring_whole (challengeText challenge) fun char member => ?_
    rcases List.mem_append.mp
      (show char ∈ ascii "OPT " ++ (ascii "CRAM-MD5-" ++ stringBinToHex challenge) from member)
      with key | rest
    · exact whole_of_not_mem (show 0 ∉ ascii "OPT " by decide) char key
    · exact (option char rest).2
  obtain ⟨opt, parsed⟩ := processNUL_options _ remote buffer (line.trans whole)
  rw [splitTokens_word isspace _ [] (fun char member => (option char member).1) nofun] at parsed
  rw [parsed]
  have known := parseOption_challenge challenge fits { remote with opt }
  exact fun _ => congrArg Prod.snd known

/-- The options of an answering session. -/
def plainOptions : List Bytes := [ascii "OPT MB CRYPT", ascii "OPT MB CRYPT NR"]

/-- They tell no challenge. -/
theorem tellsOnly_options (challenge text : Bytes) (options : text ∈ plainOptions) :
    TellsOnly challenge text := by
  intro remote buffer line told
  have parsed : ∀ rest, buffer.text = ascii "OPT " ++ rest →
      (splitTokens isspace rest [] = [ascii "MB", ascii "CRYPT"] ∨
        splitTokens isspace rest [] = [ascii "MB", ascii "CRYPT", ascii "NR"]) →
      (binkpProcessNUL remote buffer).1.known = remote.known := by
    intro rest same tokens
    obtain ⟨opt, parsed⟩ := processNUL_options rest remote buffer same
    rw [parsed]
    rcases tokens with two | three
    · rw [two]
      rfl
    · rw [three]
      rfl
  simp only [plainOptions, List.mem_cons, List.not_mem_nil, or_false] at options
  rcases options with rfl | rfl
  · exact told.of_known (parsed (ascii "MB CRYPT") line (.inl (by decide)))
  · exact told.of_known (parsed (ascii "MB CRYPT NR") line (.inr (by decide)))

/-- Nor does the rest of the system information. -/
theorem tellsOnly_sysinfo (challenge key value : Bytes) (word : key.length = 4)
    (other : key ≠ ascii "OPT ") (whole : ∀ char ∈ key, char ≠ 0) :
    TellsOnly challenge (key ++ value) := by
  intro remote buffer line told
  refine told.of_known (processNUL_known remote buffer fun options => other ?_)
  rw [line, cstring_append key value whole] at options
  have keys := List.prefix_of_prefix_length_le options (List.prefix_append key (cstring value))
    (by rw [word]; decide)
  exact (keys.eq_of_length (by rw [word]; decide)).symm

namespace BinkpState

/-! ## What a handshake leaves alone -/

/-- What a block does in a handshake, other than a line of system information to what
is known: our own data stays, and of all lines only the options are queued. -/
structure Greets (before after : BinkpState) : Prop where
  localData : after.localData = before.localData
  known : before.mode = .outgoingHandshake → after.remoteData.known = before.remoteData.known
  queued : ∀ text, after.extracmd = some (.nul, text) →
    before.extracmd = some (.nul, text) ∨ text ∈ plainOptions

/-- The same from a state that differs elsewhere. -/
theorem Greets.moved {before middle after : BinkpState} (greets : Greets middle after)
    (localData : middle.localData = before.localData) (mode : middle.mode = before.mode)
    (known : before.mode = .outgoingHandshake → middle.remoteData.known = before.remoteData.known)
    (slot : middle.extracmd = before.extracmd) : Greets before after where
  localData := greets.localData.trans localData
  known calling := (greets.known (mode.trans calling)).trans (known calling)
  queued text waits := slot ▸ greets.queued text waits

section Greets

variable (conf : BinkpConf) (answers : ReceiveAnswers) (b : BinkpState) (arg : Pointer)

theorem protoError_greets (msg : Bytes) : Greets b (b.protoError msg).1 := by
  refine ⟨rfl, fun _ => rfl, fun text queued => ?_⟩
  injection queued with queued
  cases queued

theorem optionsText_plain : optionsText conf b ∈ plainOptions := by
  unfold optionsText
  split
  · exact List.mem_cons_of_mem _ List.mem_cons_self
  · exact List.mem_cons_self

theorem refuse_greets (message : Bpmsg) (text : Bytes) (result : ReceiveResult)
    (refusal : message ≠ .nul) : Greets b (b.refuse message text result).1 := by
  unfold refuse
  split
  · exact ⟨rfl, fun _ => rfl, fun _ => .inl⟩
  · refine ⟨rfl, fun _ => rfl, fun text queued => ?_⟩
    injection queued with queued
    exact absurd (Prod.mk.inj queued).1 refusal

theorem checkCalled_greets : Greets b (b.checkCalled conf).1 := by
  unfold checkCalled
  dsimp only
  repeat' split
  · refine ⟨rfl, fun _ => rfl, fun text queued => ?_⟩
    injection queued with queued
    cases queued
  · refine ⟨rfl, fun _ => rfl, fun text queued => ?_⟩
    injection queued with queued
    cases queued
  · exact ⟨rfl, fun _ => rfl, fun _ => .inl⟩

theorem receiveADR_greets : Greets b (b.receiveADR conf arg).1 := by
  unfold receiveADR
  split
  · exact protoError_greets b _
  · split
    · exact ⟨rfl, fun _ => rfl, fun _ => .inl⟩
    · have added : ∀ after, Greets (b.addAddrs arg) after → Greets b after := fun _ greets =>
        greets.moved rfl rfl (fun _ => rfl) rfl
      refine added _ ?_
      generalize b.addAddrs arg = after
      dsimp only
      split
      · exact refuse_greets after .bsy _ _ nofun
      · split
        · exact checkCalled_greets conf after
        · split
          · refine ⟨rfl, fun _ => rfl, fun text queued => .inr ?_⟩
            injection queued with queued
            rw [← (Prod.mk.inj queued).2]
            exact optionsText_plain conf after
          · exact ⟨rfl, fun _ => rfl, fun _ => .inl⟩

theorem receivePWD_greets (blockLength : Nat) :
    Greets b (b.receivePWD conf answers arg blockLength).1 := by
  unfold receivePWD
  split
  · exact protoError_greets b _
  · rename_i answering
    have incoming : b.mode = .incomingHandshake := Decidable.not_not.mp answering
    have apart : b.mode ≠ .outgoingHandshake := by
      rw [incoming]
      exact nofun
    split
    · exact protoError_greets b _
    · dsimp only
      split
      · exact (refuse_greets (b.authenticate conf arg blockLength).1 .err _ _ nofun).moved rfl rfl
          (fun calling => absurd calling apart) rfl
      · split
        · exact (refuse_greets ((b.authenticate conf arg blockLength).1.lockAddrs answers.lock).1 .bsy
            _ _ nofun).moved rfl rfl (fun calling => absurd calling apart) rfl
        · exact ⟨rfl, fun calling => absurd calling apart, fun _ => .inl⟩

theorem receiveOK_greets : Greets b (b.receiveOK answers).1 := by
  unfold receiveOK
  split
  · exact protoError_greets b _
  · dsimp only
    split
    · exact (refuse_greets ((b.check .receivedOK).lockAddrs answers.lock).1 .bsy _ _ nofun).moved
        rfl rfl (fun _ => rfl) rfl
    · exact ⟨rfl, fun _ => rfl, fun _ => .inl⟩

theorem receiveData_greets (blockLength : Nat) :
    Greets b (b.receiveData answers arg blockLength).1 := by
  have same : ∀ after : BinkpState, after.localData = b.localData → after.remoteData = b.remoteData →
      (after.extracmd = b.extracmd ∨ ∃ message text, after.extracmd = some (message, text) ∧
        message ≠ .nul) → Greets b after := by
    intro after localData remoteData slot
    refine ⟨localData, fun _ => congrArg _ remoteData, fun text queued => ?_⟩
    rcases slot with slot | ⟨message, other, slot, apart⟩
    · exact .inl (slot ▸ queued)
    · rw [slot] at queued
      injection queued with queued
      exact absurd (Prod.mk.inj queued).1 apart
  unfold receiveData writeDone writeFailed replyRecv reply protoError
  dsimp only [touch, queue]
  repeat' split
  all_goals first
    | exact same _ rfl rfl (.inl rfl)
    | exact same _ rfl rfl (.inr ⟨_, _, rfl, nofun⟩)

/-- A command of the handshake other than a line of system information. The commands of
a transfer are protocol errors. -/
theorem receiveCommand_greets (apart : b.mode ≠ .transfer) (message : Bpmsg) (blockLength : Nat)
    (other : message ≠ .nul) :
    Greets b (b.receiveCommand conf answers message arg blockLength).1 := by
  cases message with
  | nul => exact absurd rfl other
  | adr => exact receiveADR_greets conf b arg
  | pwd => exact receivePWD_greets conf answers b arg blockLength
  | ok => exact receiveOK_greets answers b
  | file =>
    simp only [receiveCommand, receiveFILE, if_pos apart]
    exact protoError_greets b _
  | eob =>
    simp only [receiveCommand, receiveEOB, if_pos apart]
    exact protoError_greets b _
  | get =>
    simp only [receiveCommand, receiveGET, if_pos apart]
    exact protoError_greets b _
  | got =>
    simp only [receiveCommand, receiveGotSkip, if_pos apart]
    exact protoError_greets b _
  | skip =>
    simp only [receiveCommand, receiveGotSkip, if_pos apart]
    exact protoError_greets b _
  | err => exact ⟨rfl, fun _ => rfl, fun _ => .inl⟩
  | bsy => exact ⟨rfl, fun _ => rfl, fun _ => .inl⟩

end Greets

end BinkpState

namespace BinkpLoop

/-- A block handed over in a handshake is a line of system information, or it leaves
alone what a handshake leaves alone. -/
theorem hand_greets (conf : BinkpConf) (input : LoopInput) (l : BinkpLoop)
    (apart : l.state.mode ≠ .transfer) :
    (∃ arg, l.command = some (.nul, arg)) ∨ l.state.Greets (l.hand conf input).1 := by
  refine hand_cases conf input l (fun after => _ ∨ l.state.Greets after.1) ?_ ?_ ?_
  · exact fun _ => .inr (BinkpState.receiveData_greets input.receiving l.state _ _)
  · intro accesses msg _
    exact .inr ((BinkpState.protoError_greets _ msg).moved rfl rfl (fun _ => rfl) rfl)
  · intro message arg found
    by_cases line : message = .nul
    · subst line
      exact .inl ⟨arg, found⟩
    · exact .inr ((BinkpState.receiveCommand_greets conf input.receiving
        (l.state.touch [.read 1 (l.readPos - binkpHeader)]) arg apart message _ line).moved rfl rfl
          (fun _ => rfl) rfl)

end BinkpLoop

/-! ## The answering session -/

/-- What holds throughout a session that answers with this data. -/
structure Answering (data : BinkpSysinfo) (b : BinkpState) : Prop where
  mode : b.mode = .incomingHandshake
  localData : b.localData = data
  queued : ∀ text, b.extracmd = some (.nul, text) → text ∈ plainOptions

/-- A line of system information in the block tells this challenge only. -/
def Block.TellsOnly (challenge : Bytes) (block : Block) : Prop :=
  block.type = .cmd → block.payload.headD 0 = 0 →
    Binkleyforce.TellsOnly challenge block.payload.tail

/-- A command other than M_NUL tells nothing. -/
theorem tellsOnly_command (challenge : Bytes) (command : Bpmsg) (text : Bytes)
    (line : command = .nul → TellsOnly challenge text) :
    (commandBlock command text).TellsOnly challenge := by
  have first : command.toByte = 0 → command = .nul := by cases command <;> decide
  exact fun _ byte => line (first byte)

/-- The property holds of the block made, if one is. -/
def SendResult.Makes (property : Block → Prop) : SendResult → Prop
  | .block made _ => property made
  | _ => True

section Answering

variable {conf : BinkpConf} {data : BinkpSysinfo} {b : BinkpState}

/-- The lines of system information, and the addresses after them, tell no challenge. -/
theorem sendSysinfo_tells (challenge : Bytes) (answering : b.mode = .incomingHandshake) :
    (b.sendSysinfo conf).2.Makes (Block.TellsOnly challenge) := by
  have line : ∀ key value : Bytes, key.length = 4 → key ≠ ascii "OPT " → 0 ∉ key →
      (BinkpState.command .nul (key ++ value)).Makes (Block.TellsOnly challenge) :=
    fun key value word other whole => tellsOnly_command challenge .nul _ fun _ =>
      tellsOnly_sysinfo challenge key value word other (whole_of_not_mem whole)
  unfold BinkpState.sendSysinfo
  dsimp only
  split
  · exact line (ascii "SYS ") _ rfl (by decide) (by decide)
  · exact line (ascii "ZYZ ") _ rfl (by decide) (by decide)
  · exact line (ascii "LOC ") _ rfl (by decide) (by decide)
  · exact line (ascii "PHN ") _ rfl (by decide) (by decide)
  · exact line (ascii "NDL ") _ rfl (by decide) (by decide)
  · exact line (ascii "TIME") (ascii " " ++ _) rfl (by decide) (by decide)
  · unfold BinkpState.versionText
    simp only [List.append_assoc]
    exact line (ascii "VER ") _ rfl (by decide) (by decide)
  · rw [if_neg (by simp [answering])]
    exact tellsOnly_command challenge .adr _ nofun

/-- What an answering session makes tells its own challenge only. -/
theorem getforsend_tells (answering : Answering data b)
    (fits : data.challenge.length ≤ Field.challenge.size) (sending : SendAnswers) :
    (b.getforsend conf sending).2.Makes (Block.TellsOnly data.challenge) := by
  unfold BinkpState.getforsend
  split
  · rename_i message text waits
    refine tellsOnly_command data.challenge message text ?_
    rintro rfl
    exact tellsOnly_options data.challenge text (answering.queued text waits)
  · have apart : b.mode ≠ .transfer := by
      rw [answering.mode]
      exact nofun
    rw [if_neg apart]
    unfold BinkpState.handshakeForsend
    split
    · unfold BinkpState.sendChallenge
      dsimp only
      split
      · refine tellsOnly_command data.challenge .nul _ fun _ => ?_
        rw [answering.localData]
        exact tellsOnly_challenge data.challenge fits
      · exact sendSysinfo_tells data.challenge answering.mode
    · exact sendSysinfo_tells data.challenge answering.mode
    · exact tellsOnly_command data.challenge .adr _ nofun
    · unfold BinkpState.sendPassword
      rw [if_pos answering.mode]
      split
      · exact tellsOnly_command data.challenge .ok _ nofun
      · trivial
    · unfold BinkpState.handshakeEnd
      rw [if_pos answering.mode]
      trivial
    · trivial

/-- Keys that are made do not change what is known. -/
theorem foldl_known (keyed : BinkpSysinfo → Sysaddr → BinkpSysinfo)
    (kept : ∀ remote entry, (keyed remote entry).known = remote.known) (entries : List Sysaddr)
    (remote : BinkpSysinfo) : (entries.foldl keyed remote).known = remote.known := by
  induction entries generalizing remote with
  | nil => rfl
  | cons entry entries inductionHypothesis =>
    exact (inductionHypothesis (keyed remote entry)).trans (kept remote entry)

/-- Making a block leaves our own data alone, and what is known. -/
theorem getforsend_known (conf : BinkpConf) (b : BinkpState) (sending : SendAnswers) :
    (b.getforsend conf sending).1.localData = b.localData ∧
      (b.getforsend conf sending).1.remoteData.known = b.remoteData.known := by
  unfold BinkpState.getforsend
  split
  · dsimp only
    split <;> exact ⟨rfl, rfl⟩
  · unfold BinkpState.transferForsend BinkpState.sendData BinkpState.awaitAck
      BinkpState.sendNextFile BinkpState.sendFile BinkpState.handshakeForsend
      BinkpState.sendChallenge BinkpState.sendSysinfo BinkpState.sendPassword
      BinkpState.handshakeEnd
    dsimp only
    repeat' split
    all_goals first
      | exact ⟨rfl, rfl⟩
      | refine ⟨rfl, foldl_known _ (fun remote entry => ?_) b.remoteaddrs b.remoteData⟩
        split <;> rfl

end Answering

namespace BinkpLoop

variable {conf : BinkpConf}

/-- Writing changes what is written only. -/
theorem transmit_same (l after : BinkpLoop) (input : LoopInput)
    (written : l.transmit input = .more after) :
    after.state = l.state ∧ after.produced = l.produced ∧ after.handed = l.handed := by
  unfold transmit at written
  split at written
  · split at written
    · cases written
    · cases written
    · injection written with same
      exact same ▸ ⟨rfl, rfl, rfl⟩
  · injection written with same
    exact same ▸ ⟨rfl, rfl, rfl⟩

/-- What becomes of a block that was handed over. Only one that is done counts. -/
theorem settle_handed (l after : BinkpLoop) (result : ReceiveResult)
    (settled : l.settle result = .more after) :
    after.produced = l.produced ∧ after.state.remoteData = l.state.remoteData ∧
      ((result = .accepted ∨ result = .noMore) ∧ after.handed = l.handed ++ [l.block] ∨
        (result = .keep ∨ result = .abort) ∧ after.handed = l.handed) := by
  cases result with
  | accepted =>
    injection settled with same
    exact same ▸ ⟨rfl, rfl, .inl ⟨.inl rfl, rfl⟩⟩
  | noMore =>
    injection settled with same
    exact same ▸ ⟨rfl, rfl, .inl ⟨.inr rfl, rfl⟩⟩
  | keep =>
    injection settled with same
    exact same ▸ ⟨rfl, rfl, .inr ⟨.inl rfl, rfl⟩⟩
  | abort =>
    injection settled with same
    exact same ▸ ⟨rfl, rfl, .inr ⟨.inr rfl, rfl⟩⟩
  | crashed => cases settled

/-- A block made in a turn is made from the state in which the turn finds the
session. -/
theorem fetch_made (l made : BinkpLoop) (input : LoopInput)
    (fetched : l.fetch conf input = .more made) :
    made.state.mode = l.state.mode ∧ made.state.remoteData.known = l.state.remoteData.known ∧
      made.handed = l.handed ∧
      (made.produced = l.produced ∨
        ∃ block last, (l.resume.state.getforsend conf input.sending).2 = .block block last ∧
          made.produced = l.produced ++ [block]) := by
  have resumed : l.resume.state.mode = l.state.mode ∧
      l.resume.state.remoteData = l.state.remoteData ∧ l.resume.handed = l.handed ∧
      l.resume.produced = l.produced := by
    unfold resume
    split <;> exact ⟨rfl, rfl, rfl, rfl⟩
  obtain ⟨mode, remoteData, handed, produced⟩ := resumed
  have follows := BinkpState.getforsend_follows conf l.resume.state input.sending
  have known := (getforsend_known conf l.resume.state input.sending).2
  rw [remoteData] at known
  rw [← mode, ← handed, ← produced]
  unfold fetch at fetched
  split at fetched
  · unfold fetchNext at fetched
    cases given : (l.resume.state.getforsend conf input.sending).2 with
    | block block last =>
      rw [given] at fetched
      injection fetched with same
      subst same
      have loaded : ∀ l : BinkpLoop, (l.load block).state.mode = l.state.mode ∧
          (l.load block).state.remoteData.known = l.state.remoteData.known ∧
          (l.load block).handed = l.handed ∧ (l.load block).produced = l.produced ++ [block] := by
        intro l
        unfold load encrypt
        dsimp only
        split <;> exact ⟨rfl, rfl, rfl, rfl⟩
      obtain ⟨same, still, first, second⟩ := loaded
        (l.resume.withState (l.resume.state.getforsend conf input.sending).1)
      exact ⟨same.trans follows.mode, still.trans known, first, .inr ⟨block, last, rfl, second⟩⟩
    | nothing =>
      rw [given] at fetched
      injection fetched with same
      exact same ▸ ⟨follows.mode, known, rfl, .inl rfl⟩
    | noMore =>
      rw [given] at fetched
      injection fetched with same
      exact same ▸ ⟨follows.mode, known, rfl, .inl rfl⟩
    | error =>
      rw [given] at fetched
      cases fetched
    | crashed =>
      rw [given] at fetched
      cases fetched
  · injection fetched with same
    exact same ▸ ⟨rfl, congrArg _ remoteData, rfl, .inl rfl⟩

/-- A turn makes a block from the state in which it finds the session, and hands one
over or none. What is known changes by handing over only. -/
theorem step_blocks (l after : BinkpLoop) (input : LoopInput)
    (stepped : step conf l input = .more after) :
    (after.produced = l.produced ∨
      ∃ block last, (l.resume.state.getforsend conf input.sending).2 = .block block last ∧
        after.produced = l.produced ++ [block]) ∧
    ((after.handed = l.handed ∧ after.state.remoteData.known = l.state.remoteData.known) ∨
      ∃ middle, l.arriving conf input = some middle ∧ middle.state.mode = l.state.mode ∧
        middle.state.remoteData.known = l.state.remoteData.known ∧
        after.state.remoteData = (middle.hand conf input).1.remoteData ∧
        (((middle.hand conf input).2 = .accepted ∨ (middle.hand conf input).2 = .noMore) ∧
            after.handed = l.handed ++ [middle.block] ∨
          ((middle.hand conf input).2 = .keep ∨ (middle.hand conf input).2 = .abort) ∧
            after.handed = l.handed)) := by
  obtain ⟨made, batched, next⟩ := step_more l after stepped
  obtain ⟨mode, known, handed, produced⟩ := fetch_made l made input (batching_some l made batched).2
  rcases next with ⟨_, rfl⟩ | ⟨again, middle, handled, arrived, passed, written⟩
  · exact ⟨produced, .inl ⟨handed, known⟩⟩
  · obtain ⟨state, wrote, kept⟩ := transmit_same handled after input written
    obtain ⟨complete, emptyloop, keysIn, arriving, _, first, second⟩ :=
      arrive_more made middle input arrived
    have still : middle.state.mode = l.state.mode ∧
        middle.state.remoteData.known = l.state.remoteData.known := by
      rw [arriving]
      exact ⟨mode, known⟩
    rw [state, wrote, kept]
    rcases handle_more conf input middle handled passed with ⟨_, rfl⟩ | ⟨ready, _, settled⟩
    · exact ⟨first ▸ produced, .inl ⟨second.trans handed, still.2⟩⟩
    · obtain ⟨third, remoteData, fourth⟩ := settle_handed _ handled _ settled
      have here : l.arriving conf input = some middle := by
        obtain ⟨ended, fetched⟩ := batching_some l made batched
        simp only [BinkpLoop.arriving, ended, fetched, again, arrived, ready, if_true,
          Bool.false_eq_true, if_false]
      have before : handled.produced = made.produced := third.trans first
      refine ⟨before ▸ produced, .inr ⟨middle, here, still.1, still.2, remoteData, ?_⟩⟩
      rw [← handed, ← second]
      exact fourth

/-- With the terminator behind it, a block is its first byte and a C string. -/
theorem fence_text (memory : Bytes) (blockLength : Nat) (long : ¬ blockLength < 1) :
    (BinkpState.fence memory blockLength).head? = some ((memory.take blockLength).headD 0) ∧
      cstring ((BinkpState.fence memory blockLength).drop 1) =
        cstring (memory.take blockLength).tail := by
  unfold BinkpState.fence
  cases start : memory.take blockLength with
  | nil =>
    have empty : memory = [] := (List.take_eq_nil_iff.mp start).resolve_left (by omega)
    subst empty
    exact ⟨rfl, rfl⟩
  | cons char rest =>
    refine ⟨rfl, ?_⟩
    change cstring (rest ++ 0 :: memory.drop (blockLength + 1)) = cstring rest
    generalize memory.drop (blockLength + 1) = behind
    clear start
    induction rest with
    | nil => simp [cstring]
    | cons char rest inductionHypothesis =>
      by_cases zero : char = 0
      · simp [cstring, zero]
      · simpa [cstring, zero] using inductionHypothesis

/-- The command of a block is its first byte, and its argument what stands behind. -/
theorem blockCommand_text {memory : Bytes} {received blockLength : Nat} {message : Bpmsg} {arg : Pointer}
    (long : ¬ blockLength < 1)
    (found : BinkpState.blockCommand memory received blockLength = some (message, arg)) :
    Bpmsg.ofByte ((memory.take blockLength).headD 0) = some message ∧
      arg.text = cstring (memory.take blockLength).tail := by
  unfold BinkpState.blockCommand at found
  obtain ⟨known, byte, made⟩ := Option.map_eq_some_iff.mp found
  obtain ⟨rfl, rfl⟩ := Prod.mk.inj made
  obtain ⟨first, text⟩ := fence_text memory blockLength long
  rw [first] at byte
  exact ⟨byte, text⟩

/-- The argument of a command that is handed over is the text of its block. -/
theorem command_argument (l : BinkpLoop) (message : Bpmsg) (arg : Pointer)
    (found : l.command = some (message, arg)) :
    l.block.type = .cmd ∧ Bpmsg.ofByte (l.block.payload.headD 0) = some message ∧
      arg.text = cstring l.block.payload.tail := by
  have whole : l.block = ⟨headerType l.readbuf, (l.readbuf.drop binkpHeader).take l.handedLength⟩ := rfl
  unfold command at found
  rw [whole]
  dsimp only
  cases type : headerType l.readbuf with
  | data =>
    rw [type] at found
    cases found
  | cmd =>
    rw [type] at found
    dsimp only at found
    split at found
    · cases found
    · rename_i long
      obtain ⟨byte, text⟩ := blockCommand_text long found
      exact ⟨rfl, byte, text⟩

end BinkpLoop

/-- The byte of M_NUL. -/
theorem ofByte_nul (byte : UInt8) (line : Bpmsg.ofByte byte = some .nul) : byte = 0 := by
  have all : ∀ byte, Bpmsg.ofByte byte = some .nul → byte = 0 := byte_cases (by decide)
  exact all byte line

/-! ## The two runs -/

section Runs

variable (conf : BinkpConf) (data : BinkpSysinfo)

/-- Every turn keeps what holds throughout an answering session. -/
theorem answering_preserved :
    BinkpLoop.Preserved conf (fun _ _ => True) (Answering data) (Answering data) where
  weaken _ kept := kept
  keys _ _ _ kept := { kept with }
  resume _ kept := { kept with }
  idle _ kept := { kept with }
  fetch b answers kept := by
    refine SendResult.keeps_of _ ⟨?_, ?_, ?_⟩
    · exact (BinkpState.getforsend_follows conf b answers).mode.trans kept.mode
    · exact (getforsend_known conf b answers).1.trans kept.localData
    · rw [BinkpLoop.getforsend_extracmd]
      exact nofun
  restart _ kept _ := { kept with }
  finish _ kept _ _ := { kept with }
  hand l input _ _ _ kept := by
    have apart : l.state.mode ≠ .transfer := by
      rw [kept.mode]
      exact nofun
    refine ReceiveResult.keeps_of _ ?_
    rcases BinkpLoop.hand_greets conf input l apart with ⟨arg, found⟩ | greets
    · rw [BinkpLoop.hand_command conf input l .nul arg found]
      exact ⟨kept.mode, kept.localData, kept.queued⟩
    · exact ⟨(BinkpLoop.hand_follows conf input l).mode.trans kept.mode,
        greets.localData.trans kept.localData,
        fun text waits => (greets.queued text waits).elim (kept.queued text) id⟩
  abort _ kept _ := { kept with }

/-- Every turn keeps the mode of a calling session and its own data. -/
theorem calling_preserved :
    BinkpLoop.Preserved conf (fun _ _ => True)
      (fun b => b.mode = .outgoingHandshake ∧ b.localData = data)
      (fun b => b.mode = .outgoingHandshake ∧ b.localData = data) where
  weaken _ kept := kept
  keys _ _ _ kept := kept
  resume _ kept := kept
  idle _ kept := kept
  fetch b answers kept := SendResult.keeps_of _
    ⟨(BinkpState.getforsend_follows conf b answers).mode.trans kept.1,
      (getforsend_known conf b answers).1.trans kept.2⟩
  restart _ kept _ := kept
  finish _ kept _ _ := kept
  hand l input _ _ _ kept := by
    have apart : l.state.mode ≠ .transfer := by
      rw [kept.1]
      exact nofun
    refine ReceiveResult.keeps_of _
      ⟨(BinkpLoop.hand_follows conf input l).mode.trans kept.1, ?_⟩
    rcases BinkpLoop.hand_greets conf input l apart with ⟨arg, found⟩ | greets
    · rw [BinkpLoop.hand_command conf input l .nul arg found]
      exact kept.2
    · exact greets.localData.trans kept.2
  abort _ kept _ := kept

/-- An answering session tells its own challenge only. -/
theorem answering_tells (fits : data.challenge.length ≤ Field.challenge.size)
    (inputs : List LoopInput) (l : BinkpLoop)
    (reached : run (BinkpLoop.step conf) (binkpIncoming data {}) inputs = .more l) :
    ∀ block ∈ l.produced, block.TellsOnly data.challenge := by
  have carried := run_reaches (fun l : BinkpLoop => Answering data l.state ∧
      ∀ block ∈ l.produced, block.TellsOnly data.challenge)
    (fun before input after kept admitted stepped => by
      have ends := BinkpLoop.step_preserved (answering_preserved conf data) before input kept.1
        admitted
      rw [stepped] at ends
      refine ⟨ends, ?_⟩
      have resumed : Answering data before.resume.state := by
        unfold BinkpLoop.resume
        split
        · exact (answering_preserved conf data).resume _ kept.1
        · exact kept.1
      rcases (BinkpLoop.step_blocks before after input stepped).1 with same | ⟨block, last, made, more⟩
      · exact same ▸ kept.2
      · intro other member
        rw [more] at member
        rcases List.mem_append.mp member with old | new
        · exact kept.2 other old
        · rw [List.mem_singleton.mp new]
          have tells := @getforsend_tells conf _ _ resumed fits input.sending
          rwa [made] at tells)
    (binkpIncoming data {}) ⟨⟨rfl, rfl, nofun⟩, nofun⟩ inputs
    (BinkpLoop.along_always conf _ inputs) l reached
  exact carried.2

/-- A calling session knows the challenge that the blocks it took tell. -/
theorem calling_told (challenge : Bytes) (inputs : List LoopInput) (l : BinkpLoop)
    (reached : run (BinkpLoop.step conf) (binkpOutgoing data {}) inputs = .more l) :
    (l.state.mode = .outgoingHandshake ∧ l.state.localData = data) ∧
      ((∀ block ∈ l.handed, block.TellsOnly challenge) → Told challenge l.state.remoteData) := by
  refine run_reaches (fun l : BinkpLoop =>
      (l.state.mode = .outgoingHandshake ∧ l.state.localData = data) ∧
      ((∀ block ∈ l.handed, block.TellsOnly challenge) → Told challenge l.state.remoteData))
    ?_ (binkpOutgoing data {}) ⟨⟨rfl, rfl⟩, fun _ => nofun⟩ inputs
    (BinkpLoop.along_always conf _ inputs) l reached
  intro before input after kept admitted stepped
  have ends := BinkpLoop.step_preserved (calling_preserved conf data) before input kept.1 admitted
  rw [stepped] at ends
  refine ⟨ends, fun tells => ?_⟩
  rcases (BinkpLoop.step_blocks before after input stepped).2 with
    ⟨handed, known⟩ | ⟨middle, _, same, known, remoteData, handed⟩
  · exact (kept.2 (handed ▸ tells)).of_known known
  · have earlier : ∀ block ∈ before.handed, block.TellsOnly challenge := by
      intro block member
      rcases handed with ⟨_, more⟩ | ⟨_, same⟩
      · exact tells block (more ▸ List.mem_append_left _ member)
      · exact tells block (same ▸ member)
    have told : Told challenge middle.state.remoteData := (kept.2 earlier).of_known known
    have mode : middle.state.mode = .outgoingHandshake := same.trans kept.1.1
    have apart : middle.state.mode ≠ .transfer := by
      rw [mode]
      exact nofun
    rw [remoteData]
    rcases BinkpLoop.hand_greets conf input middle apart with ⟨arg, found⟩ | greets
    · have handling := BinkpLoop.hand_command conf input middle .nul arg found
      obtain ⟨type, byte, text⟩ := BinkpLoop.command_argument middle .nul arg found
      rw [handling] at handed ⊢
      have more : after.handed = before.handed ++ [middle.block] := by
        rcases handed with ⟨_, more⟩ | ⟨result, _⟩
        · exact more
        · have taken : ((middle.state.touch [.read 1 (middle.readPos - binkpHeader)]).receiveCommand
              conf input.receiving .nul arg middle.handedLength).2 = .accepted := rfl
          rw [taken] at result
          rcases result with keep | abort
          · cases keep
          · cases abort
      have line := tells middle.block (more ▸ List.mem_append_right _ List.mem_cons_self) type
        (ofByte_nul _ byte)
      exact line middle.state.remoteData arg text told
    · exact told.of_known (greets.known mode)

/-- It keeps its own data. -/
theorem answering_localData (inputs : List LoopInput) (l : BinkpLoop)
    (reached : run (BinkpLoop.step conf) (binkpIncoming data {}) inputs = .more l) :
    l.state.localData = data := by
  have carried := BinkpLoop.run_preserved (answering_preserved conf data) (binkpIncoming data {})
    ⟨rfl, rfl, nofun⟩ inputs (BinkpLoop.along_always conf _ inputs)
  rw [reached] at carried
  exact carried.localData

end Runs

end Binkleyforce
