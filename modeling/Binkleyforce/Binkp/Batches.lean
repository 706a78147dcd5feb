import Binkleyforce.Binkp.Counts
import Binkleyforce.Library.Segments

/-!
# Whether two sessions agree about their batches

Each session counts the files it opened and the M_FILEs it was sent, and the M_EOBs made
and received, and decides alone whether another batch follows. Beside each session it is
noted how many batches are behind it, and in which of them it made and counted M_EOBs.
-/

namespace Binkleyforce

open Library

/-- The batches of a session so far: how many are behind it, in which it made an M_EOB,
and in which it counted one. -/
structure Tally where
  batches : Nat := 0
  ended : List Nat := []
  counted : List Nat := []
  deriving DecidableEq, Repr

/-- How many of the blocks are M_EOB. -/
def eobs (blocks : List Block) : Nat := blocks.countP (·.command = some .eob)

/-- Note the M_EOBs that were made. -/
def Tally.noteMade (tally : Tally) (blocks : List Block) : Tally :=
  { tally with ended := tally.ended ++ .replicate (eobs blocks) tally.batches }

/-- Note the M_EOBs that were counted. -/
def Tally.noteTaken (tally : Tally) (blocks : List Block) : Tally :=
  { tally with counted := tally.counted ++ .replicate (eobs blocks) tally.batches }

/-- Blocks that are no M_EOB note nothing. -/
theorem Tally.noteMade_plain (tally : Tally) (blocks : List Block) (plain : eobs blocks = 0) :
    tally.noteMade blocks = tally := by
  unfold Tally.noteMade
  rw [plain, List.replicate_zero, List.append_nil]

/-- Blocks that are no M_EOB are not counted. -/
theorem Tally.noteTaken_plain (tally : Tally) (blocks : List Block) (plain : eobs blocks = 0) :
    tally.noteTaken blocks = tally := by
  unfold Tally.noteTaken
  rw [plain, List.replicate_zero, List.append_nil]

namespace BinkpLoop

variable (conf : BinkpConf)

/-- Note what a turn does to the batches. -/
def tallied (tally : Tally) (l : BinkpLoop) (input : LoopInput) : Tally :=
  match l.batching conf input with
  | none => tally
  | some made =>
    let tally := tally.noteMade (made.produced.drop l.produced.length)
    if made.batchRestarts then { tally with batches := tally.batches + 1 }
    else
      match l.handling conf input with
      | none => tally
      | some (_, handled) => tally.noteTaken (handled.handed.drop l.handed.length)

/-- A turn of one of two sessions. -/
def batched (confs : Side → BinkpConf) (side : Side) (mine other : Tally × BinkpLoop)
    (turn : LineTurn) : Turn (Tally × BinkpLoop) LoopResult :=
  beside (fun l turn => l.onLine (confs side) other.2 turn)
    (fun tally l turn => tallied (confs side) tally l (l.hears other.2 turn)) mine turn

/-- Seen from one of the sessions: every M_EOB is counted in the batch in which the other
session made it, and each makes one in a batch. Of two sessions at the end of the same
batch both find that another one follows, or neither. One whose batch is already behind
the other has not finished and does not. -/
structure Agree (mine other : Tally × BinkpLoop) : Prop where
  counted : mine.1.counted <+: other.1.ended
  once : mine.1.ended = List.range mine.1.ended.length
  same : mine.1.batches = other.1.batches → mine.2.batchComplete = true →
    other.2.batchComplete = true → mine.2.batchRestarts = other.2.batchRestarts
  follows : mine.1.batches < other.1.batches →
    mine.2.isOver = false ∧ (mine.2.batchComplete = true → mine.2.batchRestarts = true)

/-- The turn ends without an error: neither with a code, nor with a command that ends the
session. -/
def Faultless (l : BinkpLoop) (input : LoopInput) : Prop :=
  match step conf l input with
  | .more after => after.state.rc = .noerror ∧ after.state.extraislast = false
  | .halt _ _ => True

/-- No M_GET is obeyed in a batch whose M_EOB was made or in which no file was opened, and
no M_GOT or M_SKIP aborts a file once M_EOB was made. -/
def InBatch (l : BinkpLoop) (input : LoopInput) : Prop :=
  ∀ around ∈ l.taking conf input, ∀ named ∈ around.1.fileNamed input,
    around.1.state.Timely named

instance (l : BinkpLoop) (input : LoopInput) : Decidable (Faultless conf l input) := by
  unfold Faultless
  split <;> infer_instance

instance (l : BinkpLoop) (input : LoopInput) : Decidable (InBatch conf l input) := by
  unfold InBatch
  infer_instance

end BinkpLoop

/-! ## What a session and the blocks of the other one keep -/

/-- An M_FILE is announced in the batch. -/
def announces : Nat → List Block → Bool :=
  inSegment (·.command = some .eob) (·.command = some .file)

/-- Only M_FILE and M_EOB matter. -/
theorem announces_snoc (batch : Nat) (blocks : List Block) (block : Block) :
    announces batch (blocks ++ [block]) =
      (announces batch blocks ||
        (decide (eobs blocks = batch) && decide (block.command = some .file))) := by
  unfold announces
  rw [inSegment_snoc]
  congr 1
  cases file : decide (block.command = some .file) with
  | false => simp
  | true =>
    have other : block.command ≠ some .eob := by
      rw [of_decide_eq_true file]
      decide
    simp only [other, decide_false, Bool.not_false, Bool.and_true]
    rfl

theorem eobs_snoc (blocks : List Block) (block : Block) :
    eobs (blocks ++ [block]) = eobs blocks + if block.command = some .eob then 1 else 0 := by
  simp [eobs, List.countP_append, List.countP_cons]

theorem eobs_le {first second : List Block} (part : first <+: second) :
    eobs first ≤ eobs second :=
  part.sublist.countP_le

namespace BinkpLoop

/-- What the counts of the sending mean: whether M_EOB was made in this batch, and whether
a file was announced in it. No file is announced behind M_EOB. -/
structure Sending (tally : Tally) (l : BinkpLoop) : Prop where
  made : eobs l.produced = tally.batches + l.state.batchsendcomplete
  phase : (l.state.batchsendcomplete = 0 ∧ BinkpState.Unended l.state.phase) ∨
    (l.state.batchsendcomplete = 1 ∧ l.state.phase = 5)
  slot : ∀ text, l.state.extracmd = some (.file, text) →
    l.state.batchsendcomplete = 0 ∧ l.state.batchSendCount ≠ 0
  plain : ∀ text, l.state.extracmd ≠ some (.eob, text)
  opened : l.state.batchSendCount ≠ 0 ↔ announces tally.batches l.produced = true
  behind : announces (tally.batches + 1) l.produced = false
  ended : tally.ended = List.range (eobs l.produced)

/-- What those of the receiving mean, where the other session made these blocks. -/
structure Receiving (tally : Tally) (l : BinkpLoop) (blocks : List Block) : Prop where
  taken : eobs l.handed = tally.batches + l.state.batchreceivecomplete
  most : l.state.batchreceivecomplete ≤ 1
  noticed : announces tally.batches l.handed = true → l.state.batchRecvCount ≠ 0
  beyond : announces (tally.batches + 1) l.handed = false
  counted : tally.counted = List.range (eobs l.handed)
  handed : l.handed <+: blocks
  received : l.state.batchRecvCount ≠ 0 → announces tally.batches blocks = true

/-- What a session keeps while the other one makes these blocks. Batches went by with a
file of either side. -/
structure Follows (tally : Tally) (l : BinkpLoop) (blocks : List Block) : Prop where
  sending : Sending tally l
  receiving : Receiving tally l blocks
  fine : l.state.rc = .noerror ∧ l.state.extraislast = false
  mb : l.state.mb = true
  complete : l.state.complete = true → l.batchComplete = true ∧ l.batchRestarts = false
  went : ∀ batch < tally.batches,
    announces batch l.produced = true ∨ announces batch blocks = true

/-- More blocks of the other session change nothing. -/
theorem Follows.grown {tally : Tally} {l : BinkpLoop} {blocks more : List Block}
    (follows : Follows tally l blocks) (part : blocks <+: more) : Follows tally l more :=
  { follows with
    receiving :=
      { follows.receiving with
        handed := follows.receiving.handed.trans part
        received := fun some => inSegment_mono _ _ _ part (follows.receiving.received some) }
    went := fun batch less => (follows.went batch less).imp_right (inSegment_mono _ _ _ part) }

/-- A session whose batch is behind the other starts another one, once both M_EOBs were
seen. -/
theorem Follows.restarts {tally tallied : Tally} {l other : BinkpLoop}
    (mine : Follows tally l other.produced) (theirs : Follows tallied other l.produced)
    (late : tally.batches < tallied.batches) (complete : l.batchComplete = true) :
    l.batchRestarts = true := by
  have seen := complete
  simp only [batchComplete, ne_eq, Bool.and_eq_true, decide_eq_true_eq] at seen
  have files : l.state.batchSendCount ≠ 0 ∨ l.state.batchRecvCount ≠ 0 := by
    rcases theirs.went tally.batches late with announced | announced
    · -- The file was the other session's: it came before the M_EOB that was taken.
      refine .inr (mine.receiving.noticed ?_)
      have closed : tally.batches < eobs l.handed := by
        rw [mine.receiving.taken]
        omega
      rw [← announced]
      exact (inSegment_closed _ _ _ mine.receiving.handed closed).symm
    · exact .inl (mine.sending.opened.mpr announced)
  unfold batchRestarts
  rw [complete, mine.mb]
  simpa using files

/-- After its M_EOB neither another one nor a file arrives from the other session. -/
theorem Follows.rests {tally tallied : Tally} {l other : BinkpLoop} {block : Block}
    (mine : Follows tally l other.produced) (theirs : Follows tallied other l.produced)
    (goes : l.batchRestarts = false) (next : l.handed ++ [block] <+: other.produced)
    (counts : block.command = some .eob ∨ block.command = some .file) :
    l.state.batchreceivecomplete = 0 := by
  by_contra seen
  have one : l.state.batchreceivecomplete = 1 := by
    have := mine.receiving.most
    omega
  have late : tally.batches < tallied.batches := by
    have made := theirs.sending.made
    have most := eobs_le next
    have taken := mine.receiving.taken
    rw [eobs_snoc] at most
    have ending : other.state.batchsendcomplete ≤ 1 := by
      rcases theirs.sending.phase with ⟨zero, _⟩ | ⟨one, _⟩ <;> omega
    rcases counts with eob | file
    · rw [if_pos eob] at most
      omega
    · by_contra early
      have same : tallied.batches = tally.batches := by
        split at most <;> omega
      have announced : announces (tally.batches + 1) (l.handed ++ [block]) = true := by
        rw [announces_snoc, taken, one, file]
        simp
      have there := inSegment_mono _ _ _ next announced
      have none := theirs.sending.behind
      rw [same] at none
      exact absurd (there.symm.trans none) (by decide)
  have sent : l.state.batchsendcomplete ≠ 0 := by
    have most := eobs_le theirs.receiving.handed
    rw [theirs.receiving.taken, mine.sending.made] at most
    omega
  have complete : l.batchComplete = true := by
    simp [batchComplete, sent, one]
  rw [mine.restarts theirs late complete] at goes
  cases goes

/-! ## The parts of a turn -/

section Turn

variable {conf : BinkpConf} {input : LoopInput} {tally : Tally} {blocks : List Block}

/-- The sending, where neither its blocks nor its counts change. -/
theorem Sending.still {l after : BinkpLoop} (sending : Sending tally l)
    (sent : after.state.batchsendcomplete = l.state.batchsendcomplete)
    (opened : after.state.batchSendCount = l.state.batchSendCount)
    (phase : (after.state.batchsendcomplete = 0 ∧ BinkpState.Unended after.state.phase) ∨
      (after.state.batchsendcomplete = 1 ∧ after.state.phase = 5))
    (slot : ∀ text, after.state.extracmd = some (.file, text) →
      after.state.batchsendcomplete = 0 ∧ after.state.batchSendCount ≠ 0)
    (plain : ∀ text, after.state.extracmd ≠ some (.eob, text))
    (produced : after.produced = l.produced) : Sending tally after where
  made := by rw [produced, sent]; exact sending.made
  phase := phase
  slot := slot
  plain := plain
  opened := by rw [opened, produced]; exact sending.opened
  behind := produced ▸ sending.behind
  ended := produced ▸ sending.ended

/-- The receiving, where neither its blocks nor its counts change. -/
theorem Receiving.still {l after : BinkpLoop} (receiving : Receiving tally l blocks)
    (same : after.state.receipts = l.state.receipts) (handed : after.handed = l.handed) :
    Receiving tally after blocks := by
  simp only [BinkpState.receipts, Prod.mk.injEq] at same
  obtain ⟨ends, files⟩ := same
  exact
    { taken := by rw [handed, ends]; exact receiving.taken
      most := ends ▸ receiving.most
      noticed := by rw [handed, files]; exact receiving.noticed
      beyond := handed ▸ receiving.beyond
      counted := handed ▸ receiving.counted
      handed := handed ▸ receiving.handed
      received := by rw [files]; exact receiving.received }

/-- A block that is not counted was made. -/
theorem Sending.plainly {l after : BinkpLoop} {block : Block} (sending : Sending tally l)
    (plain : block.command ≠ some .eob)
    (file : block.command = some .file →
      l.state.batchsendcomplete = 0 ∧ l.state.batchSendCount ≠ 0)
    (sent : after.state.batchsendcomplete = l.state.batchsendcomplete)
    (opened : after.state.batchSendCount = l.state.batchSendCount)
    (phase : (after.state.batchsendcomplete = 0 ∧ BinkpState.Unended after.state.phase) ∨
      (after.state.batchsendcomplete = 1 ∧ after.state.phase = 5))
    (free : after.state.extracmd = none) (produced : after.produced = l.produced ++ [block]) :
    Sending tally after := by
  have same : eobs after.produced = eobs l.produced := by
    rw [produced, eobs_snoc, if_neg plain]
    rfl
  have made := sending.made
  exact
    { made := by rw [same, sent]; exact made
      phase := phase
      slot := fun text waits => by rw [free] at waits; cases waits
      plain := fun text waits => by rw [free] at waits; cases waits
      opened := by
        rw [opened, sending.opened, produced, announces_snoc, Bool.or_eq_true]
        refine ⟨.inl, fun there => there.elim id fun now => ?_⟩
        simp only [Bool.and_eq_true, decide_eq_true_eq] at now
        exact sending.opened.mp (file now.2).2
      behind := by
        rw [produced, announces_snoc, sending.behind, Bool.false_or]
        by_contra later
        simp only [Bool.not_eq_false, Bool.and_eq_true, decide_eq_true_eq] at later
        have zero := (file later.2).1
        omega
      ended := same ▸ sending.ended }

/-- An M_FILE was made for a file that was opened. -/
theorem Sending.opens {l after : BinkpLoop} {block : Block} (sending : Sending tally l)
    (file : block.command = some .file) (unended : l.state.batchsendcomplete = 0)
    (sent : after.state.batchsendcomplete = l.state.batchsendcomplete)
    (opened : after.state.batchSendCount = l.state.batchSendCount + 1)
    (phase : BinkpState.Unended after.state.phase) (free : after.state.extracmd = none)
    (produced : after.produced = l.produced ++ [block]) : Sending tally after := by
  have plain : block.command ≠ some .eob := by
    rw [file]
    decide
  have same : eobs after.produced = eobs l.produced := by
    rw [produced, eobs_snoc, if_neg plain]
    rfl
  have made := sending.made
  exact
    { made := by rw [same, sent]; exact made
      phase := .inl ⟨sent.trans unended, phase⟩
      slot := fun text waits => by rw [free] at waits; cases waits
      plain := fun text waits => by rw [free] at waits; cases waits
      opened := by
        have here : announces tally.batches after.produced = true := by
          rw [produced, announces_snoc, made, unended, file]
          simp
        exact ⟨fun _ => here, fun _ => by omega⟩
      behind := by
        rw [produced, announces_snoc, sending.behind, Bool.false_or, made, unended]
        simp
      ended := same ▸ sending.ended }

/-- M_EOB was made. -/
theorem Sending.ends {l after : BinkpLoop} {block : Block} (sending : Sending tally l)
    (eob : block.command = some .eob) (unended : l.state.batchsendcomplete = 0)
    (sent : after.state.batchsendcomplete = l.state.batchsendcomplete + 1)
    (opened : after.state.batchSendCount = l.state.batchSendCount)
    (phase : after.state.phase = 5) (free : after.state.extracmd = none)
    (produced : after.produced = l.produced ++ [block]) :
    Sending (tally.noteMade [block]) after := by
  have more : eobs after.produced = eobs l.produced + 1 := by
    rw [produced, eobs_snoc, if_pos eob]
  have made := sending.made
  have announced : ∀ batch, announces batch after.produced = announces batch l.produced := by
    intro batch
    rw [produced, announces_snoc, eob]
    simp
  exact
    { made := by
        show eobs after.produced = tally.batches + after.state.batchsendcomplete
        omega
      phase := .inr ⟨by omega, phase⟩
      slot := fun text waits => by rw [free] at waits; cases waits
      plain := fun text waits => by rw [free] at waits; cases waits
      opened := by rw [opened, announced]; exact sending.opened
      behind := by rw [announced]; exact sending.behind
      ended := by
        have one : eobs [block] = 1 := by simp [eobs, eob]
        show tally.ended ++ List.replicate (eobs [block]) tally.batches = List.range (eobs after.produced)
        rw [one, more, List.range_succ, sending.ended, made, unended]
        rfl }

/-- What is made changes nothing of the receiving. -/
theorem Receiving.noted {l : BinkpLoop} (receiving : Receiving tally l blocks)
    (made : List Block) : Receiving (tally.noteMade made) l blocks where
  taken := receiving.taken
  most := receiving.most
  noticed := receiving.noticed
  beyond := receiving.beyond
  counted := receiving.counted
  handed := receiving.handed
  received := receiving.received

/-- The making of a block, where it keeps what the counts of the sending mean. -/
theorem Follows.made {l made : BinkpLoop} (follows : Follows tally l blocks) (new : List Block)
    (sending : Sending (tally.noteMade new) made) (handed : made.handed = l.handed)
    (others : made.state.others = l.state.others)
    (counts : made.state.batchsendcomplete = l.state.batchsendcomplete ∧
        made.state.batchSendCount = l.state.batchSendCount ∨ l.state.batchsendcomplete = 0)
    (produced : l.produced <+: made.produced) : Follows (tally.noteMade new) made blocks := by
  simp only [BinkpState.others, Prod.mk.injEq] at others
  obtain ⟨rc, extraislast, mb, complete, ends, files⟩ := others
  have receipts : made.state.receipts = l.state.receipts := Prod.ext ends files
  exact
    { sending := sending
      receiving := (follows.receiving.still receipts handed).noted new
      fine := ⟨rc.trans follows.fine.1, extraislast.trans follows.fine.2⟩
      mb := mb.trans follows.mb
      complete := by
        intro gone
        obtain ⟨both, rests⟩ := follows.complete (complete ▸ gone)
        rcases counts with ⟨sent, opened⟩ | unended
        · unfold batchRestarts batchComplete at *
          rw [sent, opened, ends, files, mb]
          exact ⟨both, rests⟩
        · simp [batchComplete, unended] at both
      went := fun batch less => (follows.went batch less).imp_left (inSegment_mono _ _ _ produced) }

/-- The look whether more may be sent changes nothing of it. -/
theorem resume_follows (l : BinkpLoop) (follows : Follows tally l blocks) :
    Follows tally l.resume blocks := by
  obtain ⟨sending, receiving, fine, mb, complete, went⟩ := follows
  unfold resume
  split
  · exact ⟨⟨sending.made, sending.phase, sending.slot, sending.plain, sending.opened,
        sending.behind, sending.ended⟩,
      ⟨receiving.taken, receiving.most, receiving.noticed, receiving.beyond, receiving.counted,
        receiving.handed, receiving.received⟩, fine, mb, complete, went⟩
  · exact ⟨sending, receiving, fine, mb, complete, went⟩

/-- A command that was queued is made. -/
theorem queued_follows (l made : BinkpLoop) (follows : Follows tally l blocks) (message : Bpmsg)
    (text : Bytes) (waits : l.state.extracmd = some (message, text))
    (handed : made.handed = l.handed) (remoteData : BinkpSysinfo)
    (state : made.state = { l.state with extracmd := none, remoteData })
    (produced : made.produced = l.produced ++ [commandBlock message text]) :
    Follows (tally.noteMade [commandBlock message text]) made blocks := by
  have plain : (commandBlock message text).command ≠ some .eob := by
    rw [command_commandBlock]
    intro eob
    exact follows.sending.plain text (Option.some.inj eob ▸ waits)
  have file : (commandBlock message text).command = some .file →
      l.state.batchsendcomplete = 0 ∧ l.state.batchSendCount ≠ 0 := by
    rw [command_commandBlock]
    intro file
    exact follows.sending.slot text (Option.some.inj file ▸ waits)
  have none_ended : eobs [commandBlock message text] = 0 := by simpa [eobs] using plain
  have sending : Sending tally made :=
    follows.sending.plainly plain file (by rw [state]) (by rw [state])
      (by rw [state]; exact follows.sending.phase) (by rw [state]) produced
  refine follows.made _ ?_ handed (by rw [state]; rfl) (.inl ⟨by rw [state], by rw [state]⟩)
    (produced ▸ List.prefix_append _ _)
  rw [tally.noteMade_plain _ none_ended]
  exact sending

/-- The transfer goes on in a batch that is not ended. -/
theorem unended_follows (l made : BinkpLoop) (follows : Follows tally l blocks)
    (unended : l.state.batchsendcomplete = 0) (free : made.state.extracmd = none)
    (handed : made.handed = l.handed) (others : made.state.others = l.state.others)
    (result : SendResult)
    (proceeds : BinkpState.Proceeds l.state.batchsendcomplete l.state.batchSendCount
      (made.state, result))
    (blocks_made : (∃ block last, result = .block block last ∧
        made.produced = l.produced ++ [block]) ∨
      ((result = .nothing ∨ result = .noMore) ∧ made.produced = l.produced)) :
    Follows (tally.noteMade (made.produced.drop l.produced.length)) made blocks := by
  have produced : l.produced <+: made.produced := by
    rcases blocks_made with ⟨block, _, _, more⟩ | ⟨_, same⟩
    · exact more ▸ List.prefix_append _ _
    · exact same ▸ List.prefix_refl _
  refine follows.made _ ?_ handed others (.inr unended) produced
  have quiet : ∀ text message, made.state.extracmd ≠ some (message, text) := by
    intro text message waits
    rw [free] at waits
    cases waits
  rcases blocks_made with ⟨block, last, given, more⟩ | ⟨idle, same⟩
  · rw [more, List.drop_left]
    subst given
    cases proceeds with
    | quiet _ _ same still phase data =>
      have plain : block.command = none := data block last rfl
      rw [tally.noteMade_plain _ (by simp [eobs, plain])]
      exact follows.sending.plainly (by rw [plain]; exact nofun) (by rw [plain]; exact nofun)
        same still (.inl ⟨same.trans unended, phase⟩) free more
    | opens _ _ _ same counted phase file =>
      rw [tally.noteMade_plain _ (by simp [eobs, file])]
      exact follows.sending.opens file unended same counted phase free more
    | ends _ counted still phase =>
      exact follows.sending.ends (command_commandBlock _ _) unended counted still phase free more
  · rw [same, List.drop_length, tally.noteMade_plain [] rfl]
    cases proceeds with
    | quiet _ _ sent still phase _ =>
      exact follows.sending.still sent still (.inl ⟨sent.trans unended, phase⟩)
        (fun text waits => absurd waits (quiet text _)) (fun text => quiet text _) same
    | opens => rcases idle with nothing | nothing <;> cases nothing
    | ends => rcases idle with nothing | nothing <;> cases nothing
    | crashes => rcases idle with nothing | nothing <;> cases nothing

/-- Making a block keeps what follows from the counts. -/
theorem fetch_follows (l made : BinkpLoop) (mode : l.state.mode = .transfer)
    (follows : Follows tally l blocks) (fetched : l.fetch conf input = .more made) :
    Follows (tally.noteMade (made.produced.drop l.produced.length)) made blocks := by
  obtain ⟨handed, _, _, rest⟩ := fetch_cases l made mode fetched
  have before := resume_follows l follows
  have resumed : l.resume.handed = l.handed ∧ l.resume.produced = l.produced ∧
      l.resume.state.mode = l.state.mode := by
    unfold resume
    split <;> exact ⟨rfl, rfl, rfl⟩
  obtain ⟨same, produced, transfer⟩ := resumed
  rw [← produced] at rest ⊢
  rw [← same] at handed
  rcases rest with ⟨_, rfl⟩ | ⟨_, keysOut, state, blocks_made⟩
  · rw [List.drop_length, tally.noteMade_plain [] rfl]
    exact before
  · generalize l.resume = l at *
    have going : l.state.extraislast = false := before.fine.2
    cases waits : l.state.extracmd with
    | some queued =>
      obtain ⟨message, text⟩ := queued
      have given : l.state.getforsend conf input.sending =
          ({ l.state with extracmd := none }, .block (commandBlock message text) false) := by
        unfold BinkpState.getforsend
        rw [waits]
        dsimp only
        rw [going]
        rfl
      rw [given] at state blocks_made
      rcases blocks_made with ⟨block, last, made_so, more⟩ | ⟨nothing | nothing, _⟩
      · cases made_so
        rw [more, List.drop_left]
        exact queued_follows l made before message text waits handed _ state more
      · cases nothing
      · cases nothing
    | none =>
      have given : l.state.getforsend conf input.sending =
          l.state.transferForsend conf input.sending := by
        unfold BinkpState.getforsend
        rw [waits]
        exact if_pos (transfer.trans mode)
      have free := getforsend_extracmd conf l.state input.sending
      rw [given] at state blocks_made free
      have others : made.state.others = l.state.others := by
        have known : BinkpState.Unended l.state.phase ∨ l.state.phase = 5 :=
          before.sending.phase.imp And.right And.right
        rw [state, ← BinkpState.transferForsend_others conf input.sending l.state known]
        rfl
      rcases before.sending.phase with ⟨unended, phase⟩ | ⟨_, five⟩
      · refine unended_follows l made before unended (by rw [state]; exact free) handed others
          (l.state.transferForsend conf input.sending).2 ?_ blocks_made
        have proceeds := BinkpState.transferForsend_proceeds conf input.sending l.state phase
        rw [state]
        generalize l.state.transferForsend conf input.sending = after at *
        cases proceeds with
        | quiet _ _ same still phase data => exact .quiet _ _ same still phase data
        | opens _ _ _ same counted phase file => exact .opens _ _ _ same counted phase file
        | ends _ counted still phase => exact .ends _ counted still phase
        | crashes => exact .crashes _
      · have gone : l.state.transferForsend conf input.sending = (l.state, .noMore) := by
          unfold BinkpState.transferForsend
          rw [five]
          rfl
        rw [gone] at state blocks_made
        rcases blocks_made with ⟨_, _, made_so, _⟩ | ⟨_, same_blocks⟩
        · cases made_so
        · rw [same_blocks, List.drop_length]
          refine before.made _ ?_ handed others (.inl ⟨by rw [state], by rw [state]⟩)
            (same_blocks ▸ List.prefix_refl _)
          rw [tally.noteMade_plain [] rfl]
          exact before.sending.still (by rw [state]) (by rw [state])
            (by rw [state]; exact before.sending.phase)
            (by rw [state]; exact before.sending.slot) (by rw [state]; exact before.sending.plain)
            same_blocks

/-- Another batch starts with nothing of it made or taken yet. -/
theorem restart_follows (l : BinkpLoop) (follows : Follows tally l blocks)
    (again : l.batchRestarts = true) :
    Follows { tally with batches := tally.batches + 1 } l.restart blocks := by
  obtain ⟨sending, receiving, fine, mb, complete, went⟩ := follows
  have both : l.state.batchsendcomplete ≠ 0 ∧ l.state.batchreceivecomplete ≠ 0 ∧
      (l.state.batchSendCount ≠ 0 ∨ l.state.batchRecvCount ≠ 0) := by
    have := again
    simp only [batchRestarts, batchComplete, Bool.and_eq_true, Bool.or_eq_true,
      decide_eq_true_eq] at this
    exact ⟨this.1.1.1, this.1.1.2, this.2⟩
  obtain ⟨sent, received, files⟩ := both
  have one : l.state.batchsendcomplete = 1 := by
    rcases sending.phase with ⟨zero, _⟩ | ⟨one, _⟩
    · exact absurd zero sent
    · exact one
  have most := receiving.most
  have made := sending.made
  have taken := receiving.taken
  refine ⟨?_, ?_, fine, mb, ?_, ?_⟩
  · exact
      { made := by
          show eobs l.produced = tally.batches + 1 + (l.state.batchsendcomplete - 1)
          omega
        phase := .inl ⟨show l.state.batchsendcomplete - 1 = 0 by omega, .inl rfl⟩
        slot := fun text waits => absurd (sending.slot text waits).1 sent
        plain := sending.plain
        opened := ⟨fun some => absurd rfl some, fun there => by
          rw [show announces (tally.batches + 1) l.restart.produced = false from sending.behind]
            at there
          cases there⟩
        behind := inSegment_beyond _ _ _ _ (show eobs l.produced < tally.batches + 1 + 1 by omega)
        ended := sending.ended }
  · exact
      { taken := by
          show eobs l.handed = tally.batches + 1 + (l.state.batchreceivecomplete - 1)
          omega
        most := show l.state.batchreceivecomplete - 1 ≤ 1 by omega
        noticed := fun there => by
          rw [show announces (tally.batches + 1) l.restart.handed = false from receiving.beyond]
            at there
          cases there
        beyond := inSegment_beyond _ _ _ _ (show eobs l.handed < tally.batches + 1 + 1 by omega)
        counted := receiving.counted
        handed := receiving.handed
        received := fun some => absurd rfl some }
  · intro gone
    have rests := (complete gone).2
    rw [again] at rests
    cases rests
  · intro batch less
    rcases Nat.lt_succ_iff_lt_or_eq.mp less with earlier | rfl
    · exact went batch earlier
    · exact files.imp sending.opened.mp receiving.received

/-- Nothing but the end of both batches ends the session before a block is handed over. -/
theorem arrive_complete (made middle : BinkpLoop) (arrived : made.arrive input = .more middle)
    (gone : middle.state.complete = true) :
    made.state.complete = true ∨ made.batchComplete = true := by
  obtain ⟨waited, awaited, received⟩ := (Turn.andThen_more_iff _ _ _).mp arrived
  have waits : waited.state.complete = made.finish.state.complete := by
    unfold await at awaited
    repeat' split at awaited
    all_goals first
      | (injection awaited with same
         rw [← same])
      | cases awaited
  have reads : middle.state.complete = waited.state.complete := by
    unfold receive at received
    repeat' split at received
    · cases received
    · cases received
    · injection received with same
      subst same
      unfold store decrypt
      cases waited.encrypted <;> rfl
    · injection received with same
      rw [← same]
  rw [reads, waits] at gone
  unfold finish at gone
  split at gone
  · rename_i ends
    rw [Bool.and_eq_true] at ends
    exact .inr ends.1
  · exact .inl gone

/-- Up to the handing over of a block only the end of the session is noted. -/
theorem arrive_follows (made middle : BinkpLoop) (follows : Follows tally made blocks)
    (goes : made.batchRestarts = false) (arrived : made.arrive input = .more middle) :
    Follows tally middle blocks ∧ middle.batchRestarts = false := by
  obtain ⟨complete, emptyloop, keysIn, state, _, produced, handed⟩ := arrive_more made middle _ arrived
  have both : middle.batchComplete = made.batchComplete := by
    unfold batchComplete
    rw [state]
  have rests : middle.batchRestarts = made.batchRestarts := by
    unfold batchRestarts batchComplete
    rw [state]
  have sending : Sending tally middle :=
    follows.sending.still (by rw [state]) (by rw [state]) (by rw [state]; exact follows.sending.phase)
      (by rw [state]; exact follows.sending.slot) (by rw [state]; exact follows.sending.plain) produced
  refine ⟨⟨sending, follows.receiving.still (by rw [state]; rfl) handed, ?_, ?_, ?_, ?_⟩,
    rests.trans goes⟩
  · rw [state]
    exact follows.fine
  · rw [state]
    exact follows.mb
  · intro gone
    rw [both, rests]
    refine ⟨?_, goes⟩
    rcases arrive_complete made middle arrived gone with ended | ended
    · exact (follows.complete ended).1
    · exact ended
  · rw [produced]
    exact follows.went

/-- What a block that is handed over counts for. -/
theorem hand_counts (l : BinkpLoop) (transfer : l.state.mode = .transfer) :
    (l.hand conf input).1.totals = l.state.totals ∧
      ((l.hand conf input).1.rc = .localaborted ∨
        (l.hand conf input).1.receipts =
          match l.block.command with
          | some .eob => (l.state.batchreceivecomplete + 1, l.state.batchRecvCount)
          | some .file => (l.state.batchreceivecomplete, l.state.batchRecvCount + 1)
          | _ => l.state.receipts) := by
  refine hand_cases conf input l (fun after => after.1.totals = l.state.totals ∧
    (after.1.rc = .localaborted ∨ after.1.receipts = _)) ?_ ?_ ?_
  · intro type
    have plain : l.block.command = none := by
      unfold Block.command BinkpLoop.block
      rw [type]
    obtain ⟨totals, receipts⟩ := BinkpState.receiveData_counts input.receiving l.state
      ⟨l.readPos - binkpHeader, 0, l.readbuf.drop binkpHeader⟩ l.handedLength
    rw [plain]
    exact ⟨totals, .inr receipts⟩
  · exact fun accesses msg _ => ⟨rfl, .inl rfl⟩
  · intro message arg found
    have counts := BinkpState.receiveCommand_counts conf input.receiving
      (l.state.touch [.read 1 (l.readPos - binkpHeader)]) arg transfer message l.handedLength
    rw [block_command l message arg found]
    refine ⟨counts.1, counts.2.imp id fun receipts => receipts.trans ?_⟩
    cases message <;> rfl

/-- M_EOB is not kept. -/
theorem hand_eob (l : BinkpLoop) (transfer : l.state.mode = .transfer)
    (eob : l.block.command = some .eob) : (l.hand conf input).2 = .accepted := by
  refine hand_cases conf input l (fun after => after.2 = .accepted) ?_ ?_ ?_
  · intro type
    unfold Block.command BinkpLoop.block at eob
    rw [type] at eob
    cases eob
  · exact fun accesses msg _ => rfl
  · intro message arg found
    have same := block_command l message arg found
    rw [eob] at same
    cases same
    have here : ¬ (l.state.touch [.read 1 (l.readPos - binkpHeader)]).mode ≠ .transfer :=
      not_not.mpr transfer
    simp only [BinkpState.receiveCommand, BinkpState.receiveEOB, if_neg here]

/-- What a block that is handed over changes of what is sent. -/
theorem hand_sending (l : BinkpLoop) (transfer : l.state.mode = .transfer)
    (goes : (l.hand conf input).1.extraislast = false)
    (within : (l.hand conf input).2 ≠ .keep → ∀ named ∈ l.fileNamed input, l.state.Timely named) :
    BinkpState.Idles l.state (l.hand conf input).1 ∨
      (l.state.batchsendcomplete = 0 ∧ l.state.batchSendCount ≠ 0 ∧
        (l.hand conf input).1.phase = 2 ∧
        ∀ text, (l.hand conf input).1.extracmd ≠ some (.eob, text)) ∨
      (l.state.batchsendcomplete = 0 ∧ (l.hand conf input).1.phase = 0 ∧
        (l.hand conf input).1.extracmd = l.state.extracmd) := by
  revert goes within
  refine hand_cases conf input l (fun after => after.1.extraislast = false →
    (after.2 ≠ .keep → ∀ named ∈ l.fileNamed input, l.state.Timely named) →
    BinkpState.Idles l.state after.1 ∨
      (l.state.batchsendcomplete = 0 ∧ l.state.batchSendCount ≠ 0 ∧ after.1.phase = 2 ∧
        ∀ text, after.1.extracmd ≠ some (.eob, text)) ∨
      (l.state.batchsendcomplete = 0 ∧ after.1.phase = 0 ∧
        after.1.extracmd = l.state.extracmd)) ?_ ?_ ?_
  · intro _ goes _
    exact .inl ((BinkpState.receiveData_undisturbed input.receiving l.state _ _).idles goes)
  · intro _ _ _ goes
    cases goes
  · intro message arg found goes within
    have touched : ∀ fi, (l.state.touch [.read 1 (l.readPos - binkpHeader)]).ignores fi =
        l.state.ignores fi ∧
        (l.state.touch [.read 1 (l.readPos - binkpHeader)]).aborts fi = l.state.aborts fi :=
      fun _ => ⟨rfl, rfl⟩
    rcases BinkpState.receiveCommand_sending conf input.receiving
      (l.state.touch [.read 1 (l.readPos - binkpHeader)]) arg transfer message l.handedLength goes
      with idles | ⟨fi, rfl, parsed, obeyed, taken, announces⟩ |
        ⟨fi, which, parsed, named, taken, phase, slot⟩
    · exact .inl idles
    · have condition := within taken (.get, fi) (by simp [fileNamed, found, parsed])
      unfold BinkpState.Timely at condition
      rw [if_pos rfl] at condition
      rw [(touched fi).1] at obeyed
      dsimp only at condition
      rw [obeyed] at condition
      rcases condition with ignored | ⟨unended, opened⟩
      · cases ignored
      · rcases announces with idles | ⟨phase, plain⟩
        · exact .inl idles
        · exact .inr (.inl ⟨unended, opened, phase, plain⟩)
    · have apart : message ≠ .get := by
        rcases which with rfl | rfl
        · decide
        · decide
      have member : (message, fi) ∈ l.fileNamed input := by
        rcases which with rfl | rfl
        · simp [fileNamed, found, parsed]
        · simp [fileNamed, found, parsed]
      have condition := within taken (message, fi) member
      unfold BinkpState.Timely at condition
      rw [if_neg apart] at condition
      rw [(touched fi).2] at named
      dsimp only at condition
      rw [named] at condition
      rcases condition with unended | other
      · exact .inr (.inr ⟨unended, phase, slot⟩)
      · cases other

/-- What was counted changes nothing of the sending. -/
theorem Sending.noted {l : BinkpLoop} (sending : Sending tally l) (taken : List Block) :
    Sending (tally.noteTaken taken) l where
  made := sending.made
  phase := sending.phase
  slot := sending.slot
  plain := sending.plain
  opened := sending.opened
  behind := sending.behind
  ended := sending.ended

/-- M_EOB is counted. -/
theorem Receiving.ends {l after : BinkpLoop} {block : Block} (receiving : Receiving tally l blocks)
    (eob : block.command = some .eob) (first : l.state.batchreceivecomplete = 0)
    (receipts : after.state.receipts =
      (l.state.batchreceivecomplete + 1, l.state.batchRecvCount))
    (handed : after.handed = l.handed ++ [block]) (next : after.handed <+: blocks) :
    Receiving (tally.noteTaken [block]) after blocks := by
  simp only [BinkpState.receipts, Prod.mk.injEq] at receipts
  obtain ⟨ends, files⟩ := receipts
  have more : eobs after.handed = eobs l.handed + 1 := by
    rw [handed, eobs_snoc, if_pos eob]
  have taken := receiving.taken
  have announced : ∀ batch, announces batch after.handed = announces batch l.handed := by
    intro batch
    rw [handed, announces_snoc, eob]
    simp
  exact
    { taken := by
        show eobs after.handed = tally.batches + after.state.batchreceivecomplete
        omega
      most := by omega
      noticed := fun there => by
        rw [files]
        exact receiving.noticed (announced tally.batches ▸ there)
      beyond := by rw [announced]; exact receiving.beyond
      counted := by
        have one : eobs [block] = 1 := by simp [eobs, eob]
        show tally.counted ++ List.replicate (eobs [block]) tally.batches =
          List.range (eobs after.handed)
        rw [one, more, List.range_succ, receiving.counted, taken, first]
        rfl
      handed := next
      received := fun some => receiving.received (files ▸ some) }

/-- M_FILE is counted. -/
theorem Receiving.opens {l after : BinkpLoop} {block : Block} (receiving : Receiving tally l blocks)
    (file : block.command = some .file) (first : l.state.batchreceivecomplete = 0)
    (receipts : after.state.receipts =
      (l.state.batchreceivecomplete, l.state.batchRecvCount + 1))
    (handed : after.handed = l.handed ∨ after.handed = l.handed ++ [block])
    (next : l.handed ++ [block] <+: blocks) : Receiving tally after blocks := by
  simp only [BinkpState.receipts, Prod.mk.injEq] at receipts
  obtain ⟨ends, files⟩ := receipts
  have same : eobs after.handed = eobs l.handed := by
    rcases handed with kept | taken
    · rw [kept]
    · rw [taken, eobs_snoc, file]
      simp
  have taken := receiving.taken
  have here : eobs l.handed = tally.batches := by omega
  exact
    { taken := by rw [same, ends]; exact taken
      most := by have := receiving.most; omega
      noticed := fun _ => by omega
      beyond := by
        rcases handed with kept | more
        · rw [kept]
          exact receiving.beyond
        · rw [more, announces_snoc, receiving.beyond, here]
          simp
      counted := same ▸ receiving.counted
      handed := by
        rcases handed with kept | more
        · exact kept ▸ (List.prefix_append _ _).trans next
        · exact more ▸ next
      received := fun _ => by
        refine inSegment_mono _ _ _ next ?_
        show announces tally.batches (l.handed ++ [block]) = true
        rw [announces_snoc, here, file]
        simp }

/-- Another block is not counted. -/
theorem Receiving.plainly {l after : BinkpLoop} {block : Block}
    (receiving : Receiving tally l blocks)
    (plain : block.command ≠ some .eob ∧ block.command ≠ some .file)
    (receipts : after.state.receipts = l.state.receipts)
    (handed : after.handed = l.handed ∨ after.handed = l.handed ++ [block])
    (next : l.handed ++ [block] <+: blocks) : Receiving tally after blocks := by
  rcases handed with kept | more
  · exact receiving.still receipts kept
  · simp only [BinkpState.receipts, Prod.mk.injEq] at receipts
    obtain ⟨ends, files⟩ := receipts
    have same : eobs after.handed = eobs l.handed := by
      rw [more, eobs_snoc, if_neg plain.1]
      rfl
    have announced : ∀ batch, announces batch after.handed = announces batch l.handed := by
      intro batch
      rw [more, announces_snoc, decide_eq_false plain.2]
      simp
    exact
      { taken := by rw [same, ends]; exact receiving.taken
        most := ends ▸ receiving.most
        noticed := by rw [announced, files]; exact receiving.noticed
        beyond := by rw [announced]; exact receiving.beyond
        counted := same ▸ receiving.counted
        handed := more ▸ next
        received := by rw [files]; exact receiving.received }

/-- The handling of a block keeps what the counts of the sending mean. -/
theorem hands_sending (middle handled : BinkpLoop) (sending : Sending tally middle)
    (totals : handled.state.totals = middle.state.totals)
    (produced : handled.produced = middle.produced)
    (changes : BinkpState.Idles middle.state handled.state ∨
      (middle.state.batchsendcomplete = 0 ∧ middle.state.batchSendCount ≠ 0 ∧
        handled.state.phase = 2 ∧ ∀ text, handled.state.extracmd ≠ some (.eob, text)) ∨
      (middle.state.batchsendcomplete = 0 ∧ handled.state.phase = 0 ∧
        handled.state.extracmd = middle.state.extracmd)) : Sending tally handled := by
  simp only [BinkpState.totals, Prod.mk.injEq] at totals
  obtain ⟨_, _, sent, opened⟩ := totals
  rcases changes with ⟨phase, slot⟩ | ⟨unended, some, phase, plain⟩ | ⟨unended, phase, slot⟩
  · refine sending.still sent opened ?_ ?_ ?_ produced
    · rw [sent, phase]
      exact sending.phase
    · intro text waits
      rw [sent, opened]
      rcases slot _ _ waits with before | ⟨other, _⟩
      · exact sending.slot text before
      · exact absurd rfl other
    · intro text waits
      rcases slot _ _ waits with before | ⟨_, other⟩
      · exact sending.plain text before
      · exact absurd rfl other
  · refine sending.still sent opened (.inl ⟨sent.trans unended, .inr (.inl phase)⟩) ?_ plain
      produced
    exact fun _ _ => ⟨sent.trans unended, opened ▸ some⟩
  · refine sending.still sent opened (.inl ⟨sent.trans unended, .inl phase⟩) ?_ ?_ produced
    · intro text waits
      rw [sent, opened]
      exact sending.slot text (slot ▸ waits)
    · intro text waits
      exact sending.plain text (slot ▸ waits)

/-- What the counts mean once a block was handed over. -/
theorem hands_receiving (middle handled : BinkpLoop) (receiving : Receiving tally middle blocks)
    (rests : middle.block.command = some .eob ∨ middle.block.command = some .file →
      middle.state.batchreceivecomplete = 0)
    (next : middle.handed ++ [middle.block] <+: blocks)
    (receipts : handled.state.receipts =
      match middle.block.command with
      | some .eob => (middle.state.batchreceivecomplete + 1, middle.state.batchRecvCount)
      | some .file => (middle.state.batchreceivecomplete, middle.state.batchRecvCount + 1)
      | _ => middle.state.receipts)
    (handed : handled.handed = middle.handed ∧ middle.block.command ≠ some .eob ∨
      handled.handed = middle.handed ++ [middle.block]) :
    Receiving (tally.noteTaken (handled.handed.drop middle.handed.length)) handled blocks := by
  have plain : middle.block.command ≠ some .eob →
      eobs (handled.handed.drop middle.handed.length) = 0 := by
    intro other
    rcases handed with ⟨kept, _⟩ | more
    · rw [kept, List.drop_length]
      rfl
    · rw [more, List.drop_left]
      simpa [eobs] using other
  have either : handled.handed = middle.handed ∨
      handled.handed = middle.handed ++ [middle.block] := handed.imp_left And.left
  by_cases eob : middle.block.command = some .eob
  · rcases handed with ⟨_, other⟩ | more
    · exact absurd eob other
    · rw [eob] at receipts
      rw [more, List.drop_left]
      exact receiving.ends eob (rests (.inl eob)) receipts more (more ▸ next)
  · rw [tally.noteTaken_plain _ (plain eob)]
    by_cases file : middle.block.command = some .file
    · rw [file] at receipts
      exact receiving.opens file (rests (.inr file)) receipts either next
    · refine receiving.plainly ⟨eob, file⟩ ?_ either next
      rw [receipts]
      split
      · exact absurd ‹_› eob
      · exact absurd ‹_› file
      · rfl

/-- Handing a block over keeps what follows from the counts. -/
theorem handle_follows {other : BinkpLoop} {tallied : Tally} (middle handled : BinkpLoop)
    (transfer : middle.state.mode = .transfer) (mine : Follows tally middle other.produced)
    (theirs : Follows tallied other middle.produced) (goes : middle.batchRestarts = false)
    (next : middle.handed ++ middle.readyBlock <+: other.produced)
    (fine : handled.state.rc = .noerror ∧ handled.state.extraislast = false)
    (within : middle.ready = true → (middle.hand conf input).2 ≠ .keep →
      ∀ named ∈ middle.fileNamed input, middle.state.Timely named)
    (handed : middle.handle conf input = .more handled) :
    Follows (tally.noteTaken (handled.handed.drop middle.handed.length)) handled
      other.produced := by
  rcases handle_more conf input middle handled handed with ⟨_, rfl⟩ | ⟨ready, _, settled⟩
  · rw [List.drop_length, tally.noteTaken_plain [] rfl]
    exact mine
  · rw [readyBlock, if_pos ready] at next
    have result := settle_handed _ handled _ settled
    rcases settle_more _ handled _ settled with ⟨aborted, rfl⟩ | ⟨goes_on, state⟩
    · have error := BinkpState.doreceiveblock_abort conf input.receiving middle.state _ _ _ _ aborted
      exact absurd (error.symm.trans fine.1) (by decide)
    · obtain ⟨totals, counted⟩ := @hand_counts conf input middle transfer
      have here : handled.state = (middle.hand conf input).1 := state
      rw [here] at fine
      have receipts := counted.resolve_left fun failed =>
        absurd (failed.symm.trans fine.1) (by decide)
      have changes := hand_sending middle transfer fine.2 (within ready)
      rw [← here] at totals receipts changes
      have rests : middle.block.command = some .eob ∨ middle.block.command = some .file →
          middle.state.batchreceivecomplete = 0 := mine.rests theirs goes next
      have taken : handled.handed = middle.handed ∧ middle.block.command ≠ some .eob ∨
          handled.handed = middle.handed ++ [middle.block] := by
        rcases result.2.2 with ⟨_, more⟩ | ⟨kept | aborted, same⟩
        · exact .inr more
        · refine .inl ⟨same, fun eob => ?_⟩
          rw [hand_eob middle transfer eob] at kept
          cases kept
        · exact absurd aborted goes_on
      have sending := (hands_sending middle handled mine.sending totals result.1 changes).noted
        (handled.handed.drop middle.handed.length)
      have receiving := hands_receiving middle handled mine.receiving rests next receipts taken
      simp only [BinkpState.totals, Prod.mk.injEq] at totals
      obtain ⟨mb, complete, sent, opened⟩ := totals
      refine ⟨sending, receiving, here ▸ fine, mb.trans mine.mb, fun gone => ?_, fun batch less =>
        (mine.went batch less).imp_left fun announced => by rw [result.1]; exact announced⟩
      have both := (mine.complete (complete ▸ gone)).1
      have ended : middle.state.batchreceivecomplete ≠ 0 := by
        simp only [batchComplete, Bool.and_eq_true, decide_eq_true_eq] at both
        exact both.2
      have still : handled.state.receipts = middle.state.receipts := by
        rw [receipts]
        split
        · rename_i eob
          exact absurd (rests (.inl eob)) ended
        · rename_i file
          exact absurd (rests (.inr file)) ended
        · rfl
      simp only [BinkpState.receipts, Prod.mk.injEq] at still
      unfold batchRestarts batchComplete at *
      rw [sent, opened, still.1, still.2, mb]
      exact ⟨both, goes⟩

/-- A turn keeps what follows from the counts, of both sessions. -/
theorem step_follows {start ends l after other : BinkpLoop} {tallied_there : Tally}
    {turn : LineTurn} (linked : Linked start ends) (transfer : start.state.mode = .transfer)
    (transfers : ends.state.mode = .transfer) (joined : Joined start l other)
    (joined_there : Joined ends other l) (mine : Follows tally l other.produced)
    (theirs : Follows tallied_there other l.produced)
    (unbroken : Unbroken conf l (l.hears other turn)) (fits : Fits conf l (l.hears other turn))
    (within : InBatch conf l (l.hears other turn))
    (faultless : Faultless conf l (l.hears other turn))
    (stepped : step conf l (l.hears other turn) = .more after) :
    Follows (tallied conf tally l (l.hears other turn)) after other.produced ∧
      l.produced <+: after.produced := by
  obtain ⟨made, here, rest⟩ := step_more l after stepped
  have fetched := (batching_some l made here).2
  have begun := fetch_follows l made joined.speaks.mode mine fetched
  have speaks := fetch_speaks start l made joined.speaks here fits
  have longer : l.produced <+: made.produced := by
    obtain ⟨_, _, _, same | more⟩ := fetch_made l made _ fetched
    · exact same ▸ List.prefix_refl _
    · obtain ⟨block, _, _, more⟩ := more
      exact more ▸ List.prefix_append _ _
  unfold tallied
  rw [here]
  dsimp only
  rcases rest with ⟨again, rfl⟩ | ⟨goes, middle, handled, arrived, handed, written⟩
  · rw [if_pos again]
    exact ⟨restart_follows made begun again, longer⟩
  · have around := handling_some l made middle handled here goes arrived handed
    have found : l.handling conf (l.hears other turn) = some (middle, handled) := around
    rw [goes, if_neg Bool.false_ne_true, found]
    dsimp only
    obtain ⟨before, rests⟩ := arrive_follows made middle begun goes arrived
    obtain ⟨same, next⟩ :=
      Joined.next linked transfer transfers joined joined_there unbroken fits here arrived
    obtain ⟨_, _, _, state, _, produced, _⟩ := arrive_more made middle _ arrived
    obtain ⟨state_after, blocks_after, handed_after⟩ := transmit_same handled after _ written
    have mode : middle.state.mode = .transfer := by
      rw [state]
      exact speaks.mode
    have fine : handled.state.rc = .noerror ∧ handled.state.extraislast = false := by
      unfold Faultless at faultless
      rw [stepped] at faultless
      exact state_after ▸ faultless
    have timely : middle.ready = true → (middle.hand conf (l.hears other turn)).2 ≠ .keep →
        ∀ named ∈ middle.fileNamed (l.hears other turn), middle.state.Timely named := by
      intro ready taken
      refine within (middle, handled) ?_
      simp [taking, found, ready, taken]
    have their_view : Follows tallied_there other middle.produced :=
      theirs.grown (by rw [produced]; exact longer)
    have kept := handle_follows middle handled mode before their_view rests next fine timely handed
    obtain ⟨_, _, handled_blocks⟩ := handle_line middle handled handed
    rw [← same]
    have all : after.produced = made.produced := blocks_after.trans (handled_blocks.trans produced)
    refine ⟨?_, all ▸ longer⟩
    obtain ⟨sending, receiving, fine, mb, complete, went⟩ := kept
    refine ⟨sending.still (by rw [state_after]) (by rw [state_after])
        (by rw [state_after]; exact sending.phase) (by rw [state_after]; exact sending.slot)
        (by rw [state_after]; exact sending.plain) blocks_after,
      receiving.still (by rw [state_after]) handed_after, state_after ▸ fine, state_after ▸ mb, ?_,
      blocks_after ▸ went⟩
    unfold batchRestarts batchComplete at *
    rw [state_after]
    exact complete

end Turn

/-! ## Two sessions -/

/-- Two sessions whose lines end at each other, and what each keeps. -/
structure Bound (starts : Side → BinkpLoop) (side : Side) (mine other : Tally × BinkpLoop) :
    Prop where
  joined : Joined (starts side) mine.2 other.2
  joinedThere : Joined (starts side.other) other.2 mine.2
  follows : Follows mine.1 mine.2 other.2.produced
  followsThere : Follows other.1 other.2 mine.2.produced

/-- Two sessions that are bound agree about their batches. -/
theorem Bound.agree {starts : Side → BinkpLoop} {side : Side} {mine other : Tally × BinkpLoop}
    (bound : Bound starts side mine other) : Agree mine other := by
  obtain ⟨_, _, here, there⟩ := bound
  have counts : ∀ {first second : Nat}, first ≤ second → List.range first <+: List.range second :=
    fun less => List.prefix_iff_eq_take.mpr (by simp [less])
  refine ⟨?_, ?_, ?_, ?_⟩
  · rw [here.receiving.counted, there.sending.ended]
    exact counts (eobs_le here.receiving.handed)
  · rw [here.sending.ended, List.length_range]
  · -- A file opened here was noticed there before the M_EOB that followed it.
    intro same complete complete_there
    have files : ∀ {tally tallied : Tally} {l other : BinkpLoop}, Follows tally l other.produced →
        Follows tallied other l.produced → tally.batches = tallied.batches →
        other.batchComplete = true →
        (l.state.batchSendCount ≠ 0 ↔ other.state.batchRecvCount ≠ 0) := by
      intro tally tallied l other mine theirs same ended
      simp only [batchComplete, Bool.and_eq_true, decide_eq_true_eq] at ended
      rw [mine.sending.opened]
      refine ⟨fun announced => ?_, fun noticed => same ▸ theirs.receiving.received noticed⟩
      have closed : tally.batches < eobs other.handed := by
        rw [theirs.receiving.taken]
        omega
      have there := inSegment_closed (·.command = some .eob) (·.command = some .file) _
        theirs.receiving.handed closed
      exact theirs.receiving.noticed (same ▸ there.symm.trans announced)
    have sent := files here there same complete_there
    have received := files there here same.symm complete
    unfold batchRestarts
    rw [complete, complete_there, here.mb, there.mb, Bool.eq_iff_iff]
    simp only [Bool.true_and, Bool.or_eq_true, decide_eq_true_eq]
    rw [sent, received]
    exact or_comm
  · intro late
    have restarts := here.restarts there late
    refine ⟨Bool.eq_false_iff.mpr fun gone => ?_, restarts⟩
    rw [isOver, Bool.and_eq_true] at gone
    obtain ⟨complete, rests⟩ := here.complete gone.1
    exact absurd ((restarts complete).symm.trans rests) (by decide)

/-- What a turn of a session is to be like, next to the other one. -/
def Orderly (confs : Side → BinkpConf) (side : Side) (mine other : Tally × BinkpLoop)
    (turn : LineTurn) : Prop :=
  Unbroken (confs side) mine.2 (mine.2.hears other.2 turn) ∧
    Fits (confs side) mine.2 (mine.2.hears other.2 turn) ∧
    InBatch (confs side) mine.2 (mine.2.hears other.2 turn)

/-- The turn of a session is one without an error. -/
def Quietly (confs : Side → BinkpConf) (side : Side) (mine other : Tally × BinkpLoop)
    (turn : LineTurn) : Prop :=
  Faultless (confs side) mine.2 (mine.2.hears other.2 turn)

instance (confs : Side → BinkpConf) (side : Side) (mine other : Tally × BinkpLoop)
    (turn : LineTurn) : Decidable (Orderly confs side mine other turn) := by
  unfold Orderly
  infer_instance

instance (confs : Side → BinkpConf) (side : Side) (mine other : Tally × BinkpLoop)
    (turn : LineTurn) : Decidable (Quietly confs side mine other turn) := by
  unfold Quietly
  infer_instance

/-- A turn of one session keeps both bound. -/
theorem batched_bound {confs : Side → BinkpConf} {starts : Side → BinkpLoop}
    (linked : ∀ side, Linked (starts side) (starts side.other))
    (transfer : ∀ side, (starts side).state.mode = .transfer) (side : Side)
    (mine other : Tally × BinkpLoop) (turn : LineTurn) (after : Tally × BinkpLoop)
    (bound : Bound starts side mine other)
    (admitted : Quietly confs side mine other turn ∧ Orderly confs side mine other turn)
    (moved : batched confs side mine other turn = .more after) :
    Bound starts side after other := by
  obtain ⟨tally, l⟩ := mine
  obtain ⟨joined, joined_there, follows, follows_there⟩ := bound
  obtain ⟨faultless, unbroken, fits, within⟩ := admitted
  unfold batched beside onLine at moved
  dsimp only at moved
  by_cases gone : l.isOver = true
  · have still : tallied (confs side) tally l (l.hears other.2 turn) = tally := by
      unfold tallied batching
      rw [if_pos gone]
    rw [if_pos gone] at moved
    injection moved with same
    rw [← same, still]
    exact ⟨joined, joined_there, follows, follows_there⟩
  · rw [if_neg gone] at moved
    split at moved
    · rename_i next stepped
      injection moved with same
      rw [← same]
      obtain ⟨here, there⟩ := step_joined (linked side) (transfer side) (transfer side.other)
        joined joined_there unbroken fits stepped
      obtain ⟨kept, longer⟩ := step_follows (linked side) (transfer side) (transfer side.other)
        joined joined_there follows follows_there unbroken fits within faultless stepped
      exact ⟨here, there, kept, follows_there.grown longer⟩
    · cases moved

section Sessions

variable (localData remoteData : Side → BinkpSysinfo) (pi : Side → Protinfo)
  (addressEstablished isProtected : Side → Bool) (remoteaddrs : Side → List Sysaddr)

/-- The transfer on a side, before its first turn. -/
def transferOn (side : Side) : BinkpLoop :=
  binkpTransfer (localData side) (remoteData side) (pi side) (addressEstablished side)
    (isProtected side) (remoteaddrs side)

/-- Before their first turns both are bound. -/
theorem start_bound (multi : ∀ side, (remoteData side).options.mb = true) :
    Bound (transferOn localData remoteData pi addressEstablished isProtected remoteaddrs) .near
      ({}, transferOn localData remoteData pi addressEstablished isProtected remoteaddrs .near)
      ({}, transferOn localData remoteData pi addressEstablished isProtected remoteaddrs .far) := by
  have begins : ∀ side other, Joined
      (transferOn localData remoteData pi addressEstablished isProtected remoteaddrs side)
      (transferOn localData remoteData pi addressEstablished isProtected remoteaddrs side)
      (transferOn localData remoteData pi addressEstablished isProtected remoteaddrs other) :=
    fun side other => ⟨start_framed _,
      ⟨[], [], ⟨rfl, fun on => ⟨rfl, on⟩, fun _ => rfl, fun _ => rfl, rfl⟩⟩,
      ⟨rfl, rfl, nofun, nofun⟩, List.nil_prefix⟩
  have counts : ∀ side, Follows {}
      (transferOn localData remoteData pi addressEstablished isProtected remoteaddrs side) [] :=
    fun side => ⟨⟨rfl, .inl ⟨rfl, .inl rfl⟩, nofun, nofun, ⟨fun some => absurd rfl some, nofun⟩, rfl,
        rfl⟩,
      ⟨rfl, Nat.zero_le 1, nofun, rfl, rfl, List.nil_prefix, fun some => absurd rfl some⟩,
      ⟨rfl, rfl⟩, multi side, nofun, nofun⟩
  exact ⟨begins .near .far, begins .far .near, counts .near, counts .far⟩

end Sessions

end BinkpLoop

/-! ## A file that is asked for after M_EOB -/

/-- A transfer in multi-batch mode with one file to send. -/
def sendsOneEach (side : Side) : Protinfo :=
  initProtinfo
    { queue := [⟨ascii (match side with | .near => "a" | .far => "b"), 3, 0, 0, .nothing,
        .willsend, -1⟩]
      filelist := []
      reqsOnly := false }

/-- Two sessions that have a file for each other. -/
def exchangeFiles : Peers (Tally × BinkpLoop) :=
  let on := BinkpLoop.transferOn (fun _ => {}) (fun _ => { options := { mb := true } })
    sendsOneEach (fun _ => true) (fun _ => false) (fun _ => [])
  ⟨({}, on .near), ({}, on .far)⟩

/-- A turn in which all arrives that was written. The far side has the first byte of its
file already. -/
def turnOn (side : Side) : Side × LineTurn :=
  (side,
    { arrives := 100
      input :=
        { sending := .ofContent (ascii "abc")
          receiving :=
            { rxOpen :=
                { temporary := match side with
                    | .near => none
                    | .far => some (0, ascii "a") }
              rxClose := { size := some 3 } } } })

/-- The near side makes its M_EOB before the far one asks for the rest of the file. -/
def asksLate : List (Side × LineTurn) :=
  [true, false, false, true, false, true, false, false, true, true, true, false, true, false, false,
    true, true, true, false, false, false, false, true, true, false, false, true, true, false, true,
    false].map fun near => turnOn (if near then .near else .far)

namespace BinkpLoop

end BinkpLoop

end Binkleyforce
