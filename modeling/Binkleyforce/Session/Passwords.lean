import Binkleyforce.Util.Address
import Binkleyforce.Util.Md5

/-!
# Remote addresses and session passwords

A remote presents a list of addresses. They are collected without duplicates,
checked against the configured passwords, locked in the outbound, and the good
ones that could be locked are queued for mail. The check is one loop over the
list; its `else` branch has no braces, so the assignment after it belongs to
every address that is not one of our own.

The lock of a single address is a parameter here: any function from a state and
an address to a new state and a return code.
-/

namespace Binkleyforce

/-- `s_sysaddr`: an address with its busy and good marks. -/
structure Sysaddr where
  addr : Faddr
  busy : Bool := false
  good : Bool := false
  deriving DecidableEq, Repr

/-- The configuration the password check reads: our own addresses and the
configured passwords, both in the order of the configuration. -/
structure PasswordConf where
  address : List Faddr := []
  password : List (Faddr × Bytes) := []

/-- `session_addrs_add`: append an address that is not yet in the list. -/
def sessionAddrsAdd (addrs : List Sysaddr) (addr : Faddr) : List Sysaddr :=
  if addrs.any (fun present => ftnAddrcomp present.addr addr) then addrs
  else addrs ++ [{ addr := addr }]

/-- The list built from the addresses in the order they are presented. -/
def sessionAddrsPresented (presented : List Faddr) : List Sysaddr :=
  presented.foldl sessionAddrsAdd []

/-- `session_check_addr`: true for an address of our own. -/
def sessionCheckAddr (conf : PasswordConf) (addr : Faddr) : Bool :=
  conf.address.any (fun own => ftnAddrcomp addr own)

/-- The room for a password in the check, terminator included. -/
def passwordBufferSize : Nat := 32

/-- `session_get_password`: the first password configured for the address, cut
to the caller's buffer; `none` is the non-zero return. -/
def sessionGetPassword (conf : PasswordConf) (addr : Faddr) (buflen : Nat) : Option Bytes :=
  (conf.password.find? (fun entry => ftnAddrcomp addr entry.1)).map
    (fun entry => strnxcpy entry.2 buflen)

/-- Does the received text match the configured password: as the digest of the
challenge where there is one, as the password itself otherwise? A null text is
the empty one. -/
def goodPasswd (passwd : Bytes) (challenge : Option Bytes) (pbuf : Bytes) : Bool :=
  passwd ≠ [] &&
    match challenge with
    | some challenge => strcasecmp passwd (stringBinToHex (md5CramGet pbuf challenge))
    | none => strcasecmp passwd pbuf

/-- The flags of the loop of `session_addrs_check`. -/
structure CheckFlags where
  failure : Bool := false
  success : Bool := false
  isProtected : Bool
  deriving DecidableEq

/-- One address in the loop of `session_addrs_check`. The last assignment of
`good` is outside the conditional. -/
def sessionAddrsCheckOne (conf : PasswordConf) (passwd : Bytes) (challenge : Option Bytes)
    (flags : CheckFlags) (entry : Sysaddr) : CheckFlags × Sysaddr :=
  if sessionCheckAddr conf entry.addr then (flags, entry)
  else
    let (flags, entry) :=
      match sessionGetPassword conf entry.addr passwordBufferSize with
      | some pbuf =>
        if goodPasswd passwd challenge pbuf then
          ({ flags with isProtected := true, success := true }, { entry with good := true })
        else ({ flags with failure := true }, { entry with good := false })
      | none => (flags, entry)
    (flags, { entry with good := true })

/-- The loop of `session_addrs_check`. -/
def sessionAddrsCheckLoop (conf : PasswordConf) (passwd : Bytes) (challenge : Option Bytes) :
    CheckFlags → List Sysaddr → CheckFlags × List Sysaddr
  | flags, [] => (flags, [])
  | flags, entry :: rest =>
    let (flags, entry) := sessionAddrsCheckOne conf passwd challenge flags entry
    let (flags, rest) := sessionAddrsCheckLoop conf passwd challenge flags rest
    (flags, entry :: rest)

/-- The result of `session_addrs_check`: its return code, the marked addresses
and the protected flag of the session. -/
structure CheckResult where
  rc : Int
  addrs : List Sysaddr
  isProtected : Bool
  deriving DecidableEq

/-- `session_addrs_check`. -/
def sessionAddrsCheck (conf : PasswordConf) (addrs : List Sysaddr) (isProtected : Bool)
    (passwd : Bytes) (challenge : Option Bytes) : CheckResult :=
  if addrs = [] then ⟨-1, addrs, isProtected⟩
  else
    let (flags, addrs) :=
      sessionAddrsCheckLoop conf passwd challenge { isProtected := isProtected } addrs
    ⟨if flags.failure && !flags.success then -1 else 0, addrs, flags.isProtected⟩

/-- `session_addrs_check_genuine(...) == 0`: the expected address is there. -/
def sessionAddrsCheckGenuine (addrs : List Sysaddr) (expected : Faddr) : Bool :=
  addrs.any (fun entry => ftnAddrcomp entry.addr expected)

/-- The loop of `session_addrs_lock`: lock every good address and mark those
that cannot be locked. The flag tells that one lock was taken. -/
def sessionAddrsLockLoop {σ : Type} (outBsyLock : σ → Faddr → σ × Int) :
    σ → List Sysaddr → σ × List Sysaddr × Bool
  | state, [] => (state, [], false)
  | state, entry :: rest =>
    if entry.good then
      let (state, rc) := outBsyLock state entry.addr
      let (state, rest, oneLock) := sessionAddrsLockLoop outBsyLock state rest
      if rc ≠ 0 then (state, { entry with busy := true } :: rest, oneLock)
      else (state, entry :: rest, true)
    else
      let (state, rest, oneLock) := sessionAddrsLockLoop outBsyLock state rest
      (state, entry :: rest, oneLock)

/-- `session_addrs_lock`: the state and list left and the return code. -/
def sessionAddrsLock {σ : Type} (outBsyLock : σ → Faddr → σ × Int) (state : σ)
    (addrs : List Sysaddr) : σ × List Sysaddr × Int :=
  let (state, addrs, oneLock) := sessionAddrsLockLoop outBsyLock state addrs
  (state, addrs, if oneLock then 0 else -1)

/-- `session_addrs_to_falist`: the addresses mail is queued for. -/
def sessionAddrsToFalist (addrs : List Sysaddr) : List Faddr :=
  (addrs.filter (fun entry => !entry.busy && entry.good)).map (·.addr)

/-! ## What the check leaves -/

/-- One turn of the loop marks an address that is not our own as good, whether
or not the password matched. -/
theorem sessionAddrsCheckOne_entry (conf : PasswordConf) (passwd : Bytes)
    (challenge : Option Bytes) (flags : CheckFlags) (entry : Sysaddr) :
    (sessionAddrsCheckOne conf passwd challenge flags entry).2 =
      if sessionCheckAddr conf entry.addr then entry else { entry with good := true } := by
  unfold sessionAddrsCheckOne
  by_cases own : sessionCheckAddr conf entry.addr = true
  · simp only [own, if_true]
  · simp only [own, Bool.false_eq_true, if_false]
    cases sessionGetPassword conf entry.addr passwordBufferSize with
    | none => rfl
    | some pbuf => by_cases matched : goodPasswd passwd challenge pbuf = true <;> simp [matched]

/-- The loop marks every address that is not our own as good, whatever was
received, and touches nothing else. -/
theorem sessionAddrsCheckLoop_addrs (conf : PasswordConf) (passwd : Bytes)
    (challenge : Option Bytes) (flags : CheckFlags) (addrs : List Sysaddr) :
    (sessionAddrsCheckLoop conf passwd challenge flags addrs).2 =
      addrs.map (fun entry =>
        if sessionCheckAddr conf entry.addr then entry else { entry with good := true }) := by
  induction addrs generalizing flags with
  | nil => rfl
  | cons entry rest inductionHypothesis =>
    simp only [sessionAddrsCheckLoop, List.map_cons, inductionHypothesis,
      sessionAddrsCheckOne_entry]

/-- After the check exactly the acceptable addresses are marked, beside those
that were marked before. -/
theorem sessionAddrsCheck_addrs (conf : PasswordConf) (addrs : List Sysaddr)
    (isProtected : Bool) (passwd : Bytes) (challenge : Option Bytes) :
    (sessionAddrsCheck conf addrs isProtected passwd challenge).addrs =
      addrs.map (fun entry =>
        if sessionCheckAddr conf entry.addr then entry else { entry with good := true }) := by
  unfold sessionAddrsCheck
  split
  · rename_i empty
    simp [empty]
  · exact sessionAddrsCheckLoop_addrs conf passwd challenge _ addrs

/-- The list built from presented addresses carries no marks. -/
theorem presented_unmarked (presented : List Faddr) :
    ∀ entry ∈ sessionAddrsPresented presented, entry.good = false ∧ entry.busy = false := by
  have general : ∀ (later : List Faddr) (addrs : List Sysaddr),
      (∀ entry ∈ addrs, entry.good = false ∧ entry.busy = false) →
      ∀ entry ∈ later.foldl sessionAddrsAdd addrs, entry.good = false ∧ entry.busy = false := by
    intro later
    induction later with
    | nil => exact fun _ unmarked => unmarked
    | cons addr later inductionHypothesis =>
      intro addrs unmarked
      apply inductionHypothesis
      intro entry member
      unfold sessionAddrsAdd at member
      split at member
      · exact unmarked entry member
      · rcases List.mem_append.mp member with old | new
        · exact unmarked entry old
        · rw [List.mem_singleton.mp new]
          exact ⟨rfl, rfl⟩
  exact general presented [] (by simp)

/-- A lock function that only records which addresses it was asked to lock. -/
def recordLock (answer : Faddr → Int) (asked : List Faddr) (addr : Faddr) : List Faddr × Int :=
  (asked ++ [addr], answer addr)

/-- The lock is asked for exactly the good addresses, in order. -/
theorem sessionAddrsLock_asks (answer : Faddr → Int) (asked : List Faddr)
    (addrs : List Sysaddr) :
    (sessionAddrsLock (recordLock answer) asked addrs).1 =
      asked ++ (addrs.filter (·.good)).map (·.addr) := by
  have loop : ∀ (addrs : List Sysaddr) (asked : List Faddr),
      (sessionAddrsLockLoop (recordLock answer) asked addrs).1 =
        asked ++ (addrs.filter (·.good)).map (·.addr) := by
    intro addrs
    induction addrs with
    | nil => simp [sessionAddrsLockLoop]
    | cons entry rest inductionHypothesis =>
      intro asked
      unfold sessionAddrsLockLoop
      by_cases marked : entry.good = true
      · simp only [marked, if_true, List.filter_cons_of_pos, List.map_cons]
        have onward := inductionHypothesis (asked ++ [entry.addr])
        by_cases refused : answer entry.addr = 0 <;> simp [recordLock, refused, onward]
      · simp only [marked, Bool.false_eq_true, if_false, List.filter_cons_of_neg,
          not_false_eq_true]
        exact inductionHypothesis asked
  exact loop addrs asked

/-- Locking keeps the addresses and their good marks. -/
theorem sessionAddrsLock_marks {σ : Type} (outBsyLock : σ → Faddr → σ × Int) (state : σ)
    (addrs : List Sysaddr) :
    (sessionAddrsLock outBsyLock state addrs).2.1.map (fun entry => (entry.addr, entry.good)) =
      addrs.map (fun entry => (entry.addr, entry.good)) := by
  have loop : ∀ (addrs : List Sysaddr) (state : σ),
      (sessionAddrsLockLoop outBsyLock state addrs).2.1.map
          (fun entry => (entry.addr, entry.good)) =
        addrs.map (fun entry => (entry.addr, entry.good)) := by
    intro addrs
    induction addrs with
    | nil => intro state; rfl
    | cons entry rest inductionHypothesis =>
      intro state
      unfold sessionAddrsLockLoop
      split
      · dsimp only
        split <;> simp [inductionHypothesis]
      · simp [inductionHypothesis]
  exact loop addrs state

/-- A successful lock means that some address was marked good. -/
theorem sessionAddrsLock_ok {σ : Type} (outBsyLock : σ → Faddr → σ × Int) (state : σ)
    (addrs : List Sysaddr) (locked : (sessionAddrsLock outBsyLock state addrs).2.2 = 0) :
    ∃ entry ∈ addrs, entry.good = true := by
  have loop : ∀ (addrs : List Sysaddr) (state : σ),
      (sessionAddrsLockLoop outBsyLock state addrs).2.2 = true →
        ∃ entry ∈ addrs, entry.good = true := by
    intro addrs
    induction addrs with
    | nil => intro state taken; simp [sessionAddrsLockLoop] at taken
    | cons entry rest inductionHypothesis =>
      intro state taken
      by_cases marked : entry.good = true
      · exact ⟨entry, List.mem_cons_self, marked⟩
      · unfold sessionAddrsLockLoop at taken
        simp only [marked, Bool.false_eq_true, if_false] at taken
        obtain ⟨found, member, good⟩ := inductionHypothesis state taken
        exact ⟨found, List.mem_cons_of_mem entry member, good⟩
  apply loop addrs state
  unfold sessionAddrsLock at locked
  by_contra none
  simp [none] at locked

end Binkleyforce
