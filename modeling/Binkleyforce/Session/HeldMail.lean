import Binkleyforce.Library.Runs
import Binkleyforce.Session.SendOptions

/-!
# Whether held mail is sent

The files opened for sending in a session, whatever the transfer protocol asks
for and however the opening of each file turns out. The protocols all get their
next file from `p_tx_fopen`; besides, answers to file requests join the second
list, Hydra restricts a batch to file requests, and BinkP reopens a file it
already sent from.

The options are looked at when the queue is made, and again for `holdall` alone.
So held mail stays held exactly if what is held when the transfer starts was
skipped when the queue was made.
-/

namespace Binkleyforce

open Library

/-- A file that was opened for sending, with its entry unless it came from the
network spool. -/
structure Opened where
  source : Source
  entry : Option FileEntry
  deriving DecidableEq, Repr

/-- The sending side of a session: the options, the lists of files, and the files
opened so far. -/
structure Sending where
  sopts : Sendopts
  lists : FileLists
  opened : List Opened
  deriving DecidableEq, Repr

/-- What happens on the sending side: a call of `p_tx_fopen` for the next file,
or one that reopens a file; a file joining the second list; a change of
`reqs_only`. -/
inductive SendEvent where
  | fopen (accessible : Source → Bool) (network : Bool)
  | reopen (index : Nat)
  | answer (entry : FileEntry)
  | reqsOnly (only : Bool)

/-- One event. -/
def Sending.next (sending : Sending) : SendEvent → Turn Sending Empty
  | .fopen accessible network =>
    let (lists, result) := pTxFopenNext sending.sopts.holdall accessible network sending.lists
    .more { sending with
      lists
      opened := sending.opened ++
        (result.map fun source => Opened.mk source (sending.lists.entry source)).toList }
  | .reopen index =>
    if sending.sopts.holdall then .more sending
    else .more { sending with opened := sending.opened ++ sending.opened[index]?.toList }
  | .answer entry =>
    .more { sending with
      lists := { sending.lists with filelist := sending.lists.filelist ++ [entry] } }
  | .reqsOnly only => .more { sending with lists := { sending.lists with reqsOnly := only } }

/-- The sending side when the transfer starts. -/
def Sending.start (conf : SendConf) (caller : Bool) (scanned : List FileEntry)
    (handshake : Handshake) : Sending where
  sopts := (transferStart conf caller scanned handshake).1
  lists :=
    { queue := (transferStart conf caller scanned handshake).2, filelist := [], reqsOnly := false }
  opened := []

/-- No file of the queue that the options hold when the transfer starts is ever
opened. -/
def HeldMailKept (conf : SendConf) (caller : Bool) (scanned : List FileEntry)
    (handshake : Handshake) : Prop :=
  ∀ events final,
    run Sending.next (Sending.start conf caller scanned handshake) events = .more final →
    ∀ position fi, Opened.mk (.queue position) (some fi) ∈ final.opened →
      ¬ Held (transferStart conf caller scanned handshake).1 conf.delayFilesSend fi

/-- The options by which files are skipped when the queue is made: none with
BinkP, all but mail-only pickup with EMSI. -/
def skipOptions (conf : SendConf) (caller : Bool) : Handshake → Sendopts
  | .binkp => {}
  | .emsi codes => { emsiSetSendOptions conf caller codes {} with holdfiles := false }

/-- Everything is held, or every waiting file that is held when the transfer
starts is held by the options the queue was made with. -/
def SkippedInTime (conf : SendConf) (caller : Bool) (scanned : List FileEntry)
    (handshake : Handshake) : Prop :=
  (transferStart conf caller scanned handshake).1.holdall = true ∨
    ∀ fi ∈ scanned, fi.status = .willsend →
      Held (transferStart conf caller scanned handshake).1 conf.delayFilesSend fi →
      Held (skipOptions conf caller handshake) conf.delayFilesSend fi

section Kept

variable {conf : SendConf} {caller : Bool} {scanned : List FileEntry} {handshake : Handshake}

/-- The files waiting when the transfer starts. -/
theorem start_waiting_iff (position : Nat) (fi : FileEntry) (waiting : fi.status = .willsend) :
    (transferStart conf caller scanned handshake).2[position]? = some fi ↔
      scanned[position]? = some fi ∧
        ¬ Held (skipOptions conf caller handshake) conf.delayFilesSend fi := by
  cases handshake with
  | binkp => exact setSendFiles_waiting_iff {} conf.delayFilesSend scanned position fi waiting
  | emsi codes =>
    exact setSendFiles_waiting_iff _ conf.delayFilesSend scanned position fi waiting

/-- What holds in every moment of a session: what waits in the queue waited at
its start, so did every file opened from it, and none is opened while all is
held. -/
structure OpenedWaiting (start sending : Sending) : Prop where
  sopts : sending.sopts = start.sopts
  queue : Narrows start.lists.queue sending.lists.queue
  opened : ∀ position fi, Opened.mk (.queue position) (some fi) ∈ sending.opened →
    start.lists.queue[position]? = some fi ∧ fi.status = .willsend
  none_held : start.sopts.holdall = true → sending.opened = []

/-- Opening the next file while not everything is held. -/
theorem next_fopen (sending : Sending) (accessible : Source → Bool) (network : Bool)
    (some_sent : sending.sopts.holdall = false) :
    sending.next (.fopen accessible network) = .more
      { sending with
        lists := (openNext accessible network (sending.lists.waiting + 1) sending.lists).1
        opened := sending.opened ++
          ((openNext accessible network (sending.lists.waiting + 1) sending.lists).2.map
            fun source => Opened.mk source (sending.lists.entry source)).toList } := by
  simp only [Sending.next, pTxFopenNext, some_sent, Bool.false_eq_true, if_false]

/-- Opening the next file keeps it. -/
theorem openedWaiting_fopen (start before after : Sending) (accessible : Source → Bool)
    (network : Bool) (kept : OpenedWaiting start before)
    (advanced : before.next (.fopen accessible network) = .more after) :
    OpenedWaiting start after := by
  cases all : before.sopts.holdall with
  | true =>
    simp only [Sending.next, pTxFopenNext, all, if_true, Option.map_none, Option.toList_none,
      List.append_nil, Turn.more.injEq] at advanced
    exact advanced ▸ kept
  | false =>
    rw [next_fopen before accessible network all] at advanced
    obtain rfl := Turn.more.inj advanced
    obtain ⟨narrows, waits⟩ :=
      @openNext_spec before.lists network accessible (before.lists.waiting + 1)
    have something : start.sopts.holdall = false := kept.sopts ▸ all
    refine ⟨kept.sopts, kept.queue.trans narrows.queue, fun position fi member => ?_,
      fun impossible => by simp [something] at impossible⟩
    rcases List.mem_append.mp member with earlier | now
    · exact kept.opened position fi earlier
    · obtain ⟨source, found, same⟩ := Option.map_eq_some_iff.mp (Option.mem_toList.mp now)
      obtain ⟨rfl, there⟩ := Opened.mk.inj same
      obtain ⟨entry, here, waiting⟩ := waits (.queue position) found (by simp)
      obtain rfl : entry = fi := Option.some.inj (here.symm.trans there)
      exact ⟨kept.queue position entry here waiting, waiting⟩

/-- Every event keeps it. -/
theorem openedWaiting_next (start before after : Sending) (event : SendEvent)
    (kept : OpenedWaiting start before) (advanced : before.next event = .more after) :
    OpenedWaiting start after := by
  cases event with
  | fopen accessible network =>
    exact openedWaiting_fopen start before after accessible network kept advanced
  | reopen index =>
    simp only [Sending.next] at advanced
    split at advanced
    · obtain rfl := Turn.more.inj advanced
      exact kept
    · rename_i some_sent
      obtain rfl := Turn.more.inj advanced
      refine ⟨kept.sopts, kept.queue, fun position fi member => ?_, fun all => ?_⟩
      · rcases List.mem_append.mp member with earlier | again
        · exact kept.opened position fi earlier
        · exact kept.opened position fi (List.mem_of_getElem? (Option.mem_toList.mp again))
      · exact absurd (kept.sopts ▸ all) some_sent
  | answer entry =>
    obtain rfl := Turn.more.inj advanced
    exact ⟨kept.sopts, kept.queue, kept.opened, kept.none_held⟩
  | reqsOnly only =>
    obtain rfl := Turn.more.inj advanced
    exact ⟨kept.sopts, kept.queue, kept.opened, kept.none_held⟩

/-- So it holds throughout the session. -/
theorem openedWaiting_run (start : Sending) (fresh : start.opened = []) (events : List SendEvent)
    (final : Sending) (reached : run Sending.next start events = .more final) :
    OpenedWaiting start final := by
  have initial : OpenedWaiting start start :=
    ⟨rfl, .refl _, fun _ _ member => by simp [fresh] at member, fun _ => fresh⟩
  exact run_reaches (OpenedWaiting start)
    (fun before event after kept _ => openedWaiting_next start before after event kept)
    start initial events (along_of_forall _ _ (fun _ _ => trivial) _ _) final reached

end Kept

/-- A file of the hold flavour that waits in the outbound. -/
def holdFile : FileEntry where
  fname := ascii "/out/139c0001.hut"
  size := 300
  type := typeNetmail
  flavor := flavorHold
  action := .unlink
  status := .willsend
  flodsc := -1

end Binkleyforce
