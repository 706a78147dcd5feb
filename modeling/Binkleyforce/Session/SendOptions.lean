import Binkleyforce.Util.Masks
import Binkleyforce.Transfer.Queue

/-!
# Send options and the files they hold

The options to hold files come from the configuration, from the direction of the
call and, with EMSI, from the codes the remote announces. The queue is made once
in the handshake, and the files held then are marked to be skipped. EMSI sets
the options before it makes the queue; BinkP makes the queue first.
-/

namespace Binkleyforce

/-- `s_sendopts`. -/
structure Sendopts where
  fnc : Bool := false
  holdreq : Bool := false
  holdhold : Bool := false
  holdfiles : Bool := false
  holdxt : Bool := false
  holdall : Bool := false
  hydraRH1 : Bool := false
  deriving DecidableEq, Repr

/-- The configuration the options are set from: whether the file named by
`nomail_flag` exists, the bits of `options`, and `delay_files_send`. -/
structure SendConf where
  nomailFlag : Bool := false
  mailonly : Bool := false
  holdxt : Bool := false
  holdreq : Bool := false
  holdall : Bool := false
  holdhold : Bool := false
  delayFilesSend : Option Bytes := none
  deriving DecidableEq, Repr

/-- The EMSI link and compatibility codes of the remote that the options look
at. -/
structure EmsiCodes where
  fnc : Bool := false
  rh1 : Bool := false
  hrq : Bool := false
  hat : Bool := false
  hxt : Bool := false
  npu : Bool := false
  pmo : Bool := false
  linkNrq : Bool := false
  compNrq : Bool := false
  deriving DecidableEq, Repr

/-- `session_set_send_options`. -/
def sessionSetSendOptions (conf : SendConf) (caller : Bool) (sopts : Sendopts) : Sendopts :=
  { sopts with
    holdall := sopts.holdall || conf.nomailFlag || conf.holdall
    holdhold := sopts.holdhold || conf.nomailFlag || conf.holdhold
    holdreq := sopts.holdreq || !caller || conf.holdreq
    holdxt := sopts.holdxt || conf.mailonly || conf.holdxt }

/-- `emsi_set_send_options`. -/
def emsiSetSendOptions (conf : SendConf) (caller : Bool) (codes : EmsiCodes) (sopts : Sendopts) :
    Sendopts :=
  let sopts := sessionSetSendOptions conf caller sopts
  let sopts := { sopts with fnc := sopts.fnc || codes.fnc, hydraRH1 := sopts.hydraRH1 || codes.rh1 }
  if caller then
    { sopts with
      holdreq := sopts.holdreq || codes.hrq || codes.compNrq
      holdall := sopts.holdall || codes.hat
      holdxt := sopts.holdxt || codes.hxt }
  else
    { sopts with
      holdall := sopts.holdall || codes.npu
      holdfiles := sopts.holdfiles || codes.pmo
      holdreq := sopts.holdreq || codes.linkNrq }

/-- `holdfile`: 0 for a file that may be sent, 2 for one to be delayed and 1 for
one held or not to be sent for another reason. -/
def holdfile (sopts : Sendopts) (fi : FileEntry) (delayout : Option Bytes) : Nat :=
  if sopts.holdall then 1
  else if sopts.holdxt && !hasType fi.type typeNetmail then 1
  else if sopts.holdreq && hasType fi.type typeRequest then 1
  else if sopts.holdhold && fi.flavor == flavorHold then 1
  else if fi.status ≠ .willsend then 1
  else
    match delayout with
    | some masks => if checkmasks masks fi.fname then 2 else 0
    | none => 0

/-- `session_set_send_files`: skip the files that cannot be sent now. -/
def sessionSetSendFiles (sopts : Sendopts) (delayout : Option Bytes) (fslist : List FileEntry) :
    List FileEntry :=
  fslist.map fun ptrl =>
    if holdfile sopts ptrl delayout ≠ 0 then { ptrl with status := .skip } else ptrl

/-- The handshakes that make a queue of files: BinkP, or EMSI with the codes of
the remote. -/
inductive Handshake where
  | binkp
  | emsi (codes : EmsiCodes)
  deriving DecidableEq, Repr

/-- The options and the queue when the transfer starts, from what the scan of
the outbound found. Both BinkP handshakes call `session_create_files_queue`
before `session_set_send_options`, both EMSI handshakes the other way round. -/
def transferStart (conf : SendConf) (caller : Bool) (scanned : List FileEntry) :
    Handshake → Sendopts × List FileEntry
  | .binkp =>
    let fslist := sessionSetSendFiles {} conf.delayFilesSend scanned
    (sessionSetSendOptions conf caller {}, fslist)
  | .emsi codes =>
    let sopts := emsiSetSendOptions conf caller codes {}
    (sopts, sessionSetSendFiles sopts conf.delayFilesSend scanned)

/-- The options say to hold the file: all is held; the file is no netmail and
everything else is; it is a file request, or of the flavour, that is held; it is
neither netmail nor arcmail and the remote picks up mail only; or its name is
among those delayed. -/
def Held (sopts : Sendopts) (delayout : Option Bytes) (fi : FileEntry) : Prop :=
  sopts.holdall = true ∨
  (sopts.holdxt = true ∧ hasType fi.type typeNetmail = false) ∨
  (sopts.holdreq = true ∧ hasType fi.type typeRequest = true) ∨
  (sopts.holdhold = true ∧ fi.flavor = flavorHold) ∨
  (sopts.holdfiles = true ∧ hasType fi.type typeNetmail = false ∧
    hasType fi.type typeArcmail = false) ∨
  ∃ masks, delayout = some masks ∧ checkmasks masks fi.fname = true

instance (sopts : Sendopts) (delayout : Option Bytes) (fi : FileEntry) :
    Decidable (Held sopts delayout fi) :=
  have : Decidable (∃ masks, delayout = some masks ∧ checkmasks masks fi.fname = true) :=
    decidable_of_iff (delayout.any fun masks => checkmasks masks fi.fname) (Option.any_eq_true _ _)
  inferInstanceAs (Decidable (_ ∨ _ ∨ _ ∨ _ ∨ _ ∨ _))

/-- A waiting file passes `holdfile` exactly when it is held by none of the
options but perhaps `holdfiles`, which `holdfile` does not look at. -/
theorem holdfile_zero_iff (sopts : Sendopts) (delayout : Option Bytes) (fi : FileEntry)
    (waiting : fi.status = .willsend) :
    holdfile sopts fi delayout = 0 ↔ ¬ Held { sopts with holdfiles := false } delayout fi := by
  unfold holdfile Held
  cases delayout with
  | none => grind
  | some masks => grind

/-- What waits in the queue after the skipping waited before and passed
`holdfile`. -/
theorem setSendFiles_waiting_iff (sopts : Sendopts) (delayout : Option Bytes)
    (fslist : List FileEntry) (position : Nat) (fi : FileEntry) (waiting : fi.status = .willsend) :
    (sessionSetSendFiles sopts delayout fslist)[position]? = some fi ↔
      fslist[position]? = some fi ∧ ¬ Held { sopts with holdfiles := false } delayout fi := by
  rw [← holdfile_zero_iff sopts delayout fi waiting, sessionSetSendFiles, List.getElem?_map]
  cases there : fslist[position]? with
  | none => simp
  | some ptrl =>
    simp only [Option.map_some, Option.some.injEq]
    constructor
    · intro same
      split at same
      · subst same
        cases waiting
      · rename_i passed
        subst same
        exact ⟨rfl, not_not.mp passed⟩
    · rintro ⟨rfl, passed⟩
      simp [passed]

end Binkleyforce
