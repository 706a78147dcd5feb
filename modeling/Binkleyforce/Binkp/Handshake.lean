import Binkleyforce.Binkp.Invariants

/-!
# Whether a successful handshake authenticated the remote

The handshake succeeds when `binkp_loop` returns zero. An answering session must
then have taken an address from the remote, accepted its password and locked one
of its addresses; a calling session must have found the called address among
those of the remote, checked them all, and locked one after the remote's M_OK.

Several branches queue an M_ERR or M_BSY as the last command but leave the return
code at zero. Where no block is refused in such a branch, a zero return means what
it should.
-/

namespace Binkleyforce

open Library

/-- The start of a handshake in either direction. -/
def binkpHandshake (calling : Bool) (localData remoteData : BinkpSysinfo) : BinkpLoop :=
  if calling then binkpOutgoing localData remoteData else binkpIncoming localData remoteData

/-- What a successful handshake has to have checked, in this order. -/
def requiredChecks : BinkpMode → List HandshakeCheck
  | .outgoingHandshake =>
    [.checkGenuine true, .addrsCheck true, .receivedOK, .addrsLock true]
  | _ => [.processADR true, .authIncoming true, .addrsLock true]

/-- The checks of the handshake were made and passed. -/
def Authenticated (mode : BinkpMode) (checks : List HandshakeCheck) : Prop :=
  (requiredChecks mode).Sublist checks

instance (mode : BinkpMode) (checks : List HandshakeCheck) :
    Decidable (Authenticated mode checks) :=
  inferInstanceAs (Decidable ((requiredChecks mode).Sublist checks))

/-- A last command is queued or was sent. -/
def LastQueued (l : BinkpLoop) : Prop := l.state.extraislast = true

instance : DecidablePred LastQueued := fun l => inferInstanceAs (Decidable (l.state.extraislast = true))

/-- The handshake that starts so is safe: whenever the loop returns zero, the
remote is authenticated and no last command was ever queued. -/
def HandshakeSafe (conf : BinkpConf) (start : BinkpLoop) (inputs : List LoopInput) : Prop :=
  ∀ final, run (BinkpLoop.step conf) start inputs = .halt final (.returned .noerror) →
    Authenticated start.state.mode final.state.checks ∧
      ∀ past rest middle, inputs = past ++ rest →
        run (BinkpLoop.step conf) start past = .more middle → ¬ LastQueued middle

/-- An M_ADR without a usable address; in a calling session also one without the
called address, or one that does not pass the check of the passwords. -/
def refusesADR (conf : BinkpConf) (b : BinkpState) (arg : Pointer) : Bool :=
  let addrs := (binkpProcessADR b.remoteaddrs arg).1
  !b.addressEstablished &&
    (addrs.isEmpty ||
      (b.mode = .outgoingHandshake &&
        (!sessionAddrsCheckGenuine addrs conf.nodeAddr ||
          (sessionAddrsCheck conf.password addrs b.isProtected
            (strnxcpy b.localData.passwd Field.passwd.size) none).rc ≠ 0)))

/-- The outcome of locking addresses. -/
def lockFails (lock : Faddr → Int) (addrs : List Sysaddr) : Bool :=
  (sessionAddrsLock (fun (_ : Unit) addr => ((), lock addr)) () addrs).2.2 ≠ 0

/-- An M_PWD with a wrong password, or from a remote whose addresses cannot be
locked. -/
def refusesPWD (conf : BinkpConf) (answers : ReceiveAnswers) (b : BinkpState) (arg : Pointer)
    (blockLength : Nat) : Bool :=
  let result := binkpAuthIncoming conf.password b.remoteaddrs b.isProtected
    (strnxcpy arg.memory blockLength) b.localData.challenge
  b.mode = .incomingHandshake && b.addressEstablished &&
    (result.rc ≠ 0 || lockFails answers.lock result.addrs)

/-- An M_OK from a remote whose addresses cannot be locked. -/
def refusesOK (answers : ReceiveAnswers) (b : BinkpState) : Bool :=
  b.mode = .outgoingHandshake && lockFails answers.lock b.remoteaddrs

/-- The block handed over is refused without setting the return code. While
another command waits it is only kept. -/
def refusesSilently (conf : BinkpConf) (l : BinkpLoop) (input : LoopInput) : Bool :=
  l.state.extracmd.isNone &&
    match l.command with
    | some (.adr, arg) => refusesADR conf l.state arg
    | some (.pwd, arg) => refusesPWD conf input.receiving l.state arg l.handedLength
    | some (.ok, _) => refusesOK input.receiving l.state
    | _ => false

/-- No block that is handed over is refused silently. -/
def RefusalsTold (conf : BinkpConf) : BinkpLoop → LoopInput → Prop :=
  BinkpLoop.Handing conf fun l input => refusesSilently conf l input = false

instance (conf : BinkpConf) (l : BinkpLoop) (input : LoopInput) :
    Decidable (RefusalsTold conf l input) := by
  unfold RefusalsTold
  infer_instance

/-- What holds throughout a handshake. -/
structure HandshakeKept (b : BinkpState) : Prop where
  handshake : b.mode ≠ .transfer
  frs : b.frs = .nothing
  batch : b.batchsendcomplete = 0
  last : b.extraislast = true → b.rc ≠ .noerror
  phase : b.phase ≤ 4 ∨ b.rc ≠ .noerror
  confirmed : b.mode = .incomingHandshake → b.phase = 4 → b.passwordReceived = true
  known : b.remoteaddrs ≠ [] → .processADR true ∈ b.checks
  established : b.addressEstablished = true → .processADR true ∈ b.checks
  received : b.mode = .incomingHandshake → b.passwordReceived = true →
    Authenticated b.mode b.checks
  checked : b.mode = .outgoingHandshake → (∃ entry ∈ b.remoteaddrs, entry.good = true) →
    [.checkGenuine true, .addrsCheck true].Sublist b.checks
  completed : b.complete = true → b.rc ≠ .noerror ∨ Authenticated b.mode b.checks

section Kept

variable {conf : BinkpConf} {b : BinkpState}

/-- A protocol error keeps it, because it sets the return code. -/
theorem handshakeKept_protoError (kept : HandshakeKept b) (msg : Bytes) :
    HandshakeKept (b.protoError msg).1 :=
  { kept with last := fun _ => nofun, phase := .inr nofun, completed := fun _ => .inl nofun }

/-- Accesses to memory and the remote's system information do not matter. -/
theorem handshakeKept_touch (kept : HandshakeKept b) (accesses : List Access) :
    HandshakeKept (b.touch accesses) := { kept with }

theorem handshakeKept_remoteData (kept : HandshakeKept b) (remoteData : BinkpSysinfo) :
    HandshakeKept { b with remoteData } := { kept with }

/-- Another check is recorded. -/
theorem handshakeKept_check (kept : HandshakeKept b) (outcome : HandshakeCheck) :
    HandshakeKept (b.check outcome) :=
  { kept with
    known := fun some => List.mem_append_left _ (kept.known some)
    established := fun known => List.mem_append_left _ (kept.established known)
    received := fun mode known =>
      (kept.received mode known).trans (List.sublist_append_left _ _)
    checked := fun mode good => (kept.checked mode good).trans (List.sublist_append_left _ _)
    completed := fun done => (kept.completed done).imp_right fun passed =>
      passed.trans (List.sublist_append_left _ _) }

/-- Going on to another early phase keeps it. -/
theorem handshakeKept_phase (kept : HandshakeKept b) (phase subphase : Nat) (early : phase < 4) :
    HandshakeKept { b with phase, subphase } :=
  { kept with
    phase := .inl (Nat.le_of_lt early)
    confirmed := fun _ last => absurd last (Nat.ne_of_lt early) }

/-- The phases of a handshake keep it. An answering session gets to its last phase
only by confirming a password. -/
theorem handshakeKept_forsend (kept : HandshakeKept b) :
    HandshakeKept (b.handshakeForsend conf).1 := by
  have address : ∀ b : BinkpState, HandshakeKept b → b.phase = 2 →
      HandshakeKept (b.sendAddress conf).1 := fun b kept second =>
    handshakeKept_phase kept (b.phase + 1) b.subphase (by omega)
  have sysinfo : ∀ b : BinkpState, HandshakeKept b → b.phase = 1 →
      HandshakeKept (b.sendSysinfo conf).1 := by
    intro b kept first
    have stays : ∀ subphase, HandshakeKept { b with subphase } := fun subphase => { kept with }
    unfold BinkpState.sendSysinfo
    dsimp only
    split
    all_goals try exact stays _
    split
    · exact stays _
    · exact address _ (handshakeKept_phase kept (b.phase + 1) 0 (by omega)) (by simp [first])
  unfold BinkpState.handshakeForsend
  split
  · rename_i start
    unfold BinkpState.sendChallenge
    have next := handshakeKept_phase kept (b.phase + 1) 0 (by omega)
    dsimp only
    split
    · exact next
    · exact sysinfo _ next (by simp [start])
  · rename_i first
    exact sysinfo b kept first
  · rename_i second
    exact address b kept second
  · rename_i third
    unfold BinkpState.sendPassword
    have next : (b.mode = .incomingHandshake → b.passwordReceived = true) →
        HandshakeKept { b with phase := b.phase + 1 } := fun confirmed =>
      { kept with
        phase := .inl (show b.phase + 1 ≤ 4 by omega)
        confirmed := fun mode _ => confirmed mode }
    split
    · split
      · rename_i received
        exact next fun _ => received
      · exact kept
    · rename_i mode
      have calling := next fun answering => absurd answering mode
      repeat' split
      all_goals first
        | exact kept
        | exact calling
  · rename_i fourth
    unfold BinkpState.handshakeEnd
    split
    · rename_i mode
      have received := kept.received mode (kept.confirmed mode fourth)
      exact { kept with completed := fun _ => .inr received }
    · exact kept
  · have failed : b.rc ≠ .noerror := kept.phase.resolve_left (by grind)
    exact { kept with completed := fun _ => .inl failed }

/-- Making the next block keeps it. -/
theorem handshakeKept_getforsend (kept : HandshakeKept b) (answers : SendAnswers) :
    HandshakeKept (b.getforsend conf answers).1 := by
  unfold BinkpState.getforsend
  split
  · dsimp only
    split
    · rename_i ends
      exact { kept with
        phase := .inr (kept.last ends)
        confirmed := fun _ impossible => absurd (show 100 = 4 from impossible) (by decide)
        completed := fun _ => .inl (kept.last ends) }
    · exact { kept with }
  · rw [if_neg kept.handshake]
    exact handshakeKept_forsend kept

/-- Adding addresses makes none of them good. -/
theorem added_good (added : List Faddr) (addrs : List Sysaddr)
    (good : ∃ entry ∈ added.foldl sessionAddrsAdd addrs, entry.good = true) :
    ∃ entry ∈ addrs, entry.good = true := by
  induction added generalizing addrs with
  | nil => exact good
  | cons addr added inductionHypothesis =>
    obtain ⟨entry, member, marked⟩ := inductionHypothesis _ good
    unfold sessionAddrsAdd at member
    split at member
    · exact ⟨entry, member, marked⟩
    · rcases List.mem_append.mp member with old | new
      · exact ⟨entry, old, marked⟩
      · rw [List.mem_singleton.mp new] at marked
        cases marked

/-- Adding the addresses of an M_ADR keeps it. -/
theorem handshakeKept_addAddrs (kept : HandshakeKept b) (arg : Pointer) :
    HandshakeKept (b.addAddrs arg) := by
  have checked := handshakeKept_check kept (.processADR (parsableAddrs arg.text ≠ []))
  refine { checked with known := fun some => ?_, checked := fun mode good => ?_ }
  · by_cases parsed : parsableAddrs arg.text = []
    · refine checked.known fun none => some ?_
      simp [BinkpState.addAddrs, binkpProcessADR, parsed, show b.remoteaddrs = [] from none,
        BinkpState.touch, BinkpState.check]
    · simp [BinkpState.addAddrs, BinkpState.check, parsed]
  · exact checked.checked mode (added_good _ _ good)

/-- A calling session whose checks pass has made them. -/
theorem handshakeKept_checkCalled (kept : HandshakeKept b) (some : b.remoteaddrs ≠ [])
    (genuine : sessionAddrsCheckGenuine b.remoteaddrs conf.nodeAddr = true)
    (passed : (sessionAddrsCheck conf.password b.remoteaddrs b.isProtected
      (strnxcpy b.localData.passwd Field.passwd.size) none).rc = 0) :
    HandshakeKept (b.checkCalled conf).1 := by
  have checked := handshakeKept_check (handshakeKept_check kept (.checkGenuine true))
    (.addrsCheck true)
  unfold BinkpState.checkCalled
  simp only [genuine, Bool.not_true, Bool.false_eq_true, if_false]
  simp only [BinkpState.check, passed, ne_eq, not_true, if_false, decide_true]
  exact { checked with
    known := fun _ => checked.known some
    established := fun _ => checked.known some
    checked := fun _ _ => by
      dsimp only
      rw [List.append_assoc]
      exact List.sublist_append_right _ _ }

/-- An M_ADR that is not refused keeps it. -/
theorem handshakeKept_receiveADR (kept : HandshakeKept b) (arg : Pointer)
    (taken : b.extracmd = none → refusesADR conf b arg = false) :
    HandshakeKept (b.receiveADR conf arg).1 := by
  unfold BinkpState.receiveADR
  by_cases changes : b.addressEstablished = true
  · rw [if_pos changes]
    exact handshakeKept_protoError kept _
  · rw [if_neg changes]
    by_cases waits : b.extracmd.isSome = true
    · rw [if_pos waits]
      exact kept
    · rw [if_neg waits]
      have added := handshakeKept_addAddrs kept arg
      have usable := taken (by simpa using waits)
      simp only [refusesADR, changes, Bool.not_false, Bool.true_and, Bool.or_eq_false_iff] at usable
      obtain ⟨some, called⟩ := usable
      have present : (b.addAddrs arg).remoteaddrs ≠ [] := by
        intro none
        simp [show (binkpProcessADR b.remoteaddrs arg).1 = [] from none] at some
      dsimp only
      rw [if_neg (by simpa using present)]
      by_cases calling : b.mode = .outgoingHandshake
      · rw [if_pos (show (b.addAddrs arg).mode = _ from calling)]
        simp only [calling, decide_true, Bool.true_and, Bool.or_eq_false_iff,
          Bool.not_eq_false', decide_eq_false_iff_not, ne_eq, not_not] at called
        exact handshakeKept_checkCalled added present called.1 called.2
      · rw [if_neg (show (b.addAddrs arg).mode ≠ _ from calling)]
        have known := added.known present
        split
        · exact { added with last := nofun, established := fun _ => known }
        · exact { added with established := fun _ => known }

/-- Locking addresses keeps it. -/
theorem handshakeKept_lockAddrs (kept : HandshakeKept b) (lock : Faddr → Int) :
    HandshakeKept (b.lockAddrs lock).1 := by
  have checked := handshakeKept_check kept (.addrsLock (b.lockAddrs lock).2)
  have marks := sessionAddrsLock_marks (fun (_ : Unit) addr => ((), lock addr)) () b.remoteaddrs
  refine { checked with known := fun some => ?_, checked := fun mode good => ?_ }
  · refine checked.known fun none => some ?_
    have empty : b.remoteaddrs = [] := none
    simpa [BinkpState.lockAddrs, BinkpState.check, empty] using marks
  · refine checked.checked mode ?_
    obtain ⟨entry, member, marked⟩ := good
    have there : (entry.addr, entry.good) ∈
        b.remoteaddrs.map (fun entry => (entry.addr, entry.good)) :=
      marks ▸ List.mem_map_of_mem member
    obtain ⟨old, present, same⟩ := List.mem_map.mp there
    exact ⟨old, present, by rw [← marked]; exact (Prod.mk.inj same).2⟩

/-- Locking succeeds unless the condition on the turn says otherwise. -/
theorem lockAddrs_locked (lock : Faddr → Int) :
    (b.lockAddrs lock).2 = !lockFails lock b.remoteaddrs := by
  simp [BinkpState.lockAddrs, lockFails]

/-- Checking the password of an M_PWD keeps it, once an address is known. -/
theorem handshakeKept_authenticate (kept : HandshakeKept b)
    (answering : b.mode = .incomingHandshake) (known : b.addressEstablished = true)
    (arg : Pointer) (blockLength : Nat) :
    HandshakeKept (b.authenticate conf arg blockLength).1 := by
  have checked := handshakeKept_check kept
    (.authIncoming (b.authenticate conf arg blockLength).2)
  exact { checked with
    known := fun _ => checked.established known
    checked := fun calling => absurd (answering.symm.trans calling) nofun }

/-- A queued command keeps it while another one waits, because then nothing is
queued. -/
theorem handshakeKept_refuse (kept : HandshakeKept b) (waits : b.extracmd ≠ none)
    (message : Bpmsg) (text : Bytes) (result : ReceiveResult) :
    HandshakeKept (b.refuse message text result).1 := by
  unfold BinkpState.refuse
  rw [if_pos (Option.isSome_iff_ne_none.mpr waits)]
  exact kept

/-- An M_PWD that is not refused keeps it: an address was taken before, and now
the password is accepted and an address locked. -/
theorem handshakeKept_receivePWD (kept : HandshakeKept b) (answers : ReceiveAnswers)
    (arg : Pointer) (blockLength : Nat)
    (taken : b.extracmd = none → refusesPWD conf answers b arg blockLength = false) :
    HandshakeKept (b.receivePWD conf answers arg blockLength).1 := by
  unfold BinkpState.receivePWD
  by_cases answering : b.mode = .incomingHandshake
  · rw [if_neg (not_not_intro answering)]
    by_cases known : b.addressEstablished = true
    · simp only [known, Bool.not_true, Bool.false_eq_true, if_false]
      have checked : HandshakeKept (b.authenticate conf arg blockLength).1 :=
        handshakeKept_authenticate kept answering known arg blockLength
      have waiting : (b.authenticate conf arg blockLength).2 = false ∨
          (((b.authenticate conf arg blockLength).1.lockAddrs answers.lock).2 = false) →
          b.extracmd ≠ none := by
        intro fails free
        have passes := taken free
        simp only [refusesPWD, answering, known, decide_true, Bool.true_and,
          Bool.or_eq_false_iff, decide_eq_false_iff_not, ne_eq, not_not] at passes
        rcases fails with wrong | locked
        · simp [BinkpState.authenticate, copyField, BinkpState.touch, passes.1] at wrong
        · rw [lockAddrs_locked] at locked
          simp [BinkpState.authenticate, copyField, BinkpState.touch, BinkpState.check,
            passes.2] at locked
      split
      · rename_i wrong
        exact handshakeKept_refuse checked (waiting (.inl (by simpa using wrong))) _ _ _
      · rename_i right
        have locked := handshakeKept_lockAddrs checked answers.lock
        split
        · rename_i unlocked
          exact handshakeKept_refuse locked (waiting (.inr (by simpa using unlocked))) _ _ _
        · rename_i one
          have passed : Authenticated .incomingHandshake
              ((b.authenticate conf arg blockLength).1.lockAddrs answers.lock).1.checks := by
            have first : [HandshakeCheck.processADR true].Sublist b.checks :=
              List.singleton_sublist.mpr (kept.established known)
            have record : ((b.authenticate conf arg blockLength).1.lockAddrs
                answers.lock).1.checks =
                b.checks ++ [.authIncoming (b.authenticate conf arg blockLength).2] ++
                  [.addrsLock
                    ((b.authenticate conf arg blockLength).1.lockAddrs answers.lock).2] := rfl
            rw [record, show (b.authenticate conf arg blockLength).2 = true by simpa using right,
              show ((b.authenticate conf arg blockLength).1.lockAddrs answers.lock).2 = true by
                simpa using one]
            exact (first.append_right [.authIncoming true]).append_right [.addrsLock true]
          exact { locked with
            confirmed := fun _ _ => rfl
            received := fun _ _ => answering ▸ passed }
    · simp only [known, Bool.not_false, if_true]
      exact handshakeKept_protoError kept _
  · rw [if_pos answering]
    exact handshakeKept_protoError kept _

/-- An M_OK that is not refused keeps it: an address could be locked, so the
checks of the addresses were made before. -/
theorem handshakeKept_receiveOK (kept : HandshakeKept b) (answers : ReceiveAnswers)
    (taken : b.extracmd = none → refusesOK answers b = false) :
    HandshakeKept (b.receiveOK answers).1 := by
  unfold BinkpState.receiveOK
  by_cases calling : b.mode = .outgoingHandshake
  · rw [if_neg (not_not_intro calling)]
    have locked := handshakeKept_lockAddrs (handshakeKept_check kept .receivedOK) answers.lock
    dsimp only
    split
    · rename_i unlocked
      refine handshakeKept_refuse locked (fun free => ?_) _ _ _
      have passes := taken free
      simp only [refusesOK, calling, decide_true, Bool.true_and] at passes
      rw [lockAddrs_locked] at unlocked
      simp [BinkpState.check, passes] at unlocked
    · rename_i one
      have locks : lockFails answers.lock b.remoteaddrs = false := by
        rw [lockAddrs_locked] at one
        simpa [BinkpState.check] using one
      have passed : Authenticated b.mode
          (((b.check .receivedOK).lockAddrs answers.lock).1.checks) := by
        have good := sessionAddrsLock_ok _ _ b.remoteaddrs (by simpa [lockFails] using locks)
        have record : ((b.check .receivedOK).lockAddrs answers.lock).1.checks =
            b.checks ++ [.receivedOK] ++
              [.addrsLock ((b.check .receivedOK).lockAddrs answers.lock).2] := rfl
        rw [record, show ((b.check .receivedOK).lockAddrs answers.lock).2 = true by
          simpa using one, calling]
        exact ((kept.checked calling good).append_right [.receivedOK]).append_right
          [.addrsLock true]
      exact { locked with completed := fun _ => .inr passed }
  · rw [if_pos calling]
    exact handshakeKept_protoError kept _

/-- A block that is not refused silently keeps it. -/
theorem handshakeKept_hand (l : BinkpLoop) (input : LoopInput) (kept : HandshakeKept l.state)
    (told : refusesSilently conf l input = false) :
    HandshakeKept (l.hand conf input).1 := by
  refine BinkpLoop.hand_cases conf input l (fun result => HandshakeKept result.1) ?_ ?_ ?_
  · intro _
    unfold BinkpState.receiveData
    split
    · exact kept
    · rw [kept.frs]
      exact handshakeKept_protoError kept _
  · exact fun _ _ _ => handshakeKept_protoError (handshakeKept_touch kept _) _
  · intro message arg found
    have touched := handshakeKept_touch kept [.read 1 (l.readPos - binkpHeader)]
    have taken : ∀ refuses : Bool, (l.state.extracmd = none →
        (l.state.extracmd.isNone && refuses) = false → refuses = false) := by
      intro refuses free
      simp [free]
    have transfer := fun msg => handshakeKept_protoError touched msg
    have apart : (l.state.touch [.read 1 (l.readPos - binkpHeader)]).mode ≠ .transfer :=
      kept.handshake
    have acknowledges : ∀ skip, HandshakeKept
        ((l.state.touch [.read 1 (l.readPos - binkpHeader)]).receiveGotSkip input.receiving skip
          arg).1 := by
      intro skip
      unfold BinkpState.receiveGotSkip
      rw [if_pos apart]
      exact transfer _
    unfold refusesSilently at told
    rw [found] at told
    unfold BinkpState.receiveCommand
    cases message with
    | nul => exact handshakeKept_touch (handshakeKept_remoteData touched _) _
    | adr => exact handshakeKept_receiveADR touched arg fun free => taken _ free told
    | pwd =>
      exact handshakeKept_receivePWD touched input.receiving arg _ fun free => taken _ free told
    | ok => exact handshakeKept_receiveOK touched input.receiving fun free => taken _ free told
    | file =>
      unfold BinkpState.receiveFILE
      rw [if_pos apart]
      exact transfer _
    | eob =>
      unfold BinkpState.receiveEOB
      rw [if_pos apart]
      exact transfer _
    | got => exact acknowledges false
    | skip => exact acknowledges true
    | get =>
      unfold BinkpState.receiveGET
      rw [if_pos apart]
      exact transfer _
    | err =>
      exact { handshakeKept_touch touched [arg.read] with
        last := fun _ => nofun, phase := .inr nofun, completed := fun _ => .inl nofun }
    | bsy =>
      exact { handshakeKept_touch touched [arg.read] with
        last := fun _ => nofun, phase := .inr nofun, completed := fun _ => .inl nofun }

/-- Turns that refuse nothing silently keep it. -/
theorem handshakeKept_preserved (conf : BinkpConf) :
    BinkpLoop.Preserved conf (fun l input => refusesSilently conf l input = false)
      HandshakeKept HandshakeKept where
  weaken _ kept := kept
  keys _ _ _ kept := handshakeKept_remoteData kept _
  resume _ kept := { kept with }
  idle _ kept := { kept with }
  fetch _ answers kept := SendResult.keeps_of _ (handshakeKept_getforsend kept answers)
  restart l kept again := by
    simp [BinkpLoop.batchRestarts, BinkpLoop.batchComplete, kept.batch] at again
  finish _ kept done := absurd kept.batch done
  hand l input _ _ told kept := ReceiveResult.keeps_of _ (handshakeKept_hand l input kept told)
  abort _ kept failed := { kept with completed := fun _ => .inl failed }

/-- It holds before the loop. -/
theorem handshakeKept_start (calling : Bool) (localData remoteData : BinkpSysinfo) :
    HandshakeKept (binkpHandshake calling localData remoteData).state := by
  cases calling with
  | true => constructor <;> simp [binkpHandshake, binkpOutgoing, BinkpLoop.start]
  | false => constructor <;> simp [binkpHandshake, binkpIncoming, BinkpLoop.start]

end Kept

/-- In every run of a handshake in which no block is refused silently, whatever
the remote sends, a zero return means that the remote was authenticated, and no
M_ERR or M_BSY was queued as the last command before it. -/
theorem handshake_safe (conf : BinkpConf) (calling : Bool) (localData remoteData : BinkpSysinfo)
    (inputs : List LoopInput)
    (told : Along (RefusalsTold conf) (BinkpLoop.step conf)
      (binkpHandshake calling localData remoteData) inputs) :
    HandshakeSafe conf (binkpHandshake calling localData remoteData) inputs := by
  have initial := handshakeKept_start calling localData remoteData
  intro final returned
  obtain ⟨mode, _, complete, _, code⟩ := BinkpLoop.run_noerror conf _ final inputs returned
  constructor
  · have ended := BinkpLoop.run_preserved (handshakeKept_preserved conf) _ initial inputs told
    rw [returned] at ended
    exact mode ▸ (ended.1.completed complete).resolve_left (fun failed => failed code)
  · rintro past rest middle rfl reached last
    have kept := BinkpLoop.run_preserved (handshakeKept_preserved conf) _ initial past
      (along_front _ _ _ past rest told)
    rw [reached] at kept
    rw [run_append, reached] at returned
    exact HandshakeKept.last kept last (BinkpLoop.run_noerror conf middle final rest returned).2.1

/-- A configuration with a password for one node. -/
def secretConf : BinkpConf where
  password := { password := [({ zone := 2, net := 5020, node := 1 }, ascii "secret")] }
  files := { netName := fun name _ => name, filetype := fun _ => 0, localtogmt := id }

/-- The turns in which that node presents itself with some password. -/
def callFrom (passwd : Bytes) : List LoopInput :=
  lineTurns { opening := { opens := fun _ => none } }
    [commandBlock .adr (ascii "2:5020/1"), commandBlock .pwd passwd] 14

/-- The right password: the handshake returns zero and has authenticated the
node. -/
theorem right_password_authenticated :
    (run (BinkpLoop.step secretConf) (binkpHandshake false {} {})
      (callFrom (ascii "secret"))).Ends (fun _ => False) (fun final result =>
        result = .returned .noerror ∧ Authenticated .incomingHandshake final.state.checks) := by
  have safe := handshake_safe secretConf false {} {} (callFrom (ascii "secret")) (by decide)
  have zero : (run (BinkpLoop.step secretConf) (binkpHandshake false {} {})
      (callFrom (ascii "secret"))).Ends (fun _ => False)
        (fun _ result => result = .returned .noerror) := by decide
  cases ended : run (BinkpLoop.step secretConf) (binkpHandshake false {} {})
      (callFrom (ascii "secret")) with
  | more final =>
    rw [ended] at zero
    exact zero.elim
  | halt final result =>
    rw [ended] at zero
    obtain rfl : result = .returned .noerror := zero
    exact ⟨rfl, (safe final ended).1⟩

/-- A wrong password: the node is told, but the handshake returns zero all the
same. -/
theorem wrong_password_succeeds :
    ¬ HandshakeSafe secretConf (binkpHandshake false {} {}) (callFrom (ascii "wrong")) := by
  have zero : (run (BinkpLoop.step secretConf) (binkpHandshake false {} {})
      (callFrom (ascii "wrong"))).Ends (fun _ => False) (fun final result =>
        result = .returned .noerror ∧ ¬ Authenticated .incomingHandshake final.state.checks) := by
    decide
  intro safe
  cases ended : run (BinkpLoop.step secretConf) (binkpHandshake false {} {})
      (callFrom (ascii "wrong")) with
  | more final =>
    rw [ended] at zero
    exact zero
  | halt final result =>
    rw [ended] at zero
    obtain ⟨rfl, unknown⟩ := zero
    exact unknown (safe final ended).1

end Binkleyforce
