import Binkleyforce.Transfer.Sides
import Binkleyforce.Transfer.Tracked

/-!
# Where a file being sent is read

A local file keeps count of the bytes sent beside the position of its stream. Both
are changed in different places, by reading, by going back and by asking for a file
again, and are equal whenever the file is read.
-/

namespace Binkleyforce

/-- An open file is a local one, and as much of it was sent as was read. -/
def Finfo.Positioned (finf : Finfo) : Prop :=
  ∀ stream, finf.fp = some stream →
    finf.bytesSent = stream.position ∧ finf.netspool = false ∧ finf.waitack = false

/-- So it is with all files sent. -/
def Streams (pi : Protinfo) : Prop := ∀ finf ∈ pi.sentfiles, finf.Positioned

section Streams

variable {pi after : Protinfo}

theorem streams_modify (streams : Streams pi) (index : Nat) (change : Finfo → Finfo)
    (kept : ∀ old, pi.sentfiles[index]? = some old → old.Positioned → (change old).Positioned)
    (files : after.sentfiles = pi.sentfiles.modify index change) : Streams after := by
  intro finf member
  rcases mem_modify (files ▸ member) with old | ⟨old, found, rfl⟩
  · exact streams finf old
  · exact kept old found (streams old (List.mem_of_getElem? found))

/-- Two changes of the current file are one. -/
theorem changeSend_twice (pi : Protinfo) (first second : Finfo → Finfo) :
    (pi.changeSend first).changeSend second = pi.changeSend fun finf => second (first finf) := by
  unfold Protinfo.changeSend
  cases current : pi.send with
  | none => simp only [current]
  | some index =>
    simp only [Protinfo.changeSent, current, List.modify_modify_eq]
    rfl

/-- A change that changes nothing. -/
theorem changeSend_id (pi : Protinfo) : pi.changeSend (fun finf => finf) = pi := by
  unfold Protinfo.changeSend
  cases current : pi.send with
  | none => rfl
  | some index =>
    show { pi with sentfiles := pi.sentfiles.modify index id } = pi
    rw [List.modify_id]

/-- A change of the current file. -/
theorem streams_changeSend (streams : Streams pi) (change : Finfo → Finfo)
    (kept : ∀ old, pi.sending = some old → old.Positioned → (change old).Positioned) :
    Streams (pi.changeSend change) := by
  unfold Protinfo.changeSend
  cases current : pi.send with
  | none => exact streams
  | some index =>
    refine streams_modify streams index change (fun old found => kept old ?_) rfl
    rw [Protinfo.sending, current]
    exact found

/-- A change of the current file that is not about its stream. -/
theorem streams_changeSend_mild (streams : Streams pi) (change : Finfo → Finfo)
    (same : ∀ old, (change old).fp = old.fp ∧ (change old).bytesSent = old.bytesSent ∧
      (change old).netspool = old.netspool ∧ (change old).waitack = old.waitack) :
    Streams (pi.changeSend change) := by
  refine streams_changeSend streams change fun old _ positioned => ?_
  obtain ⟨fp, bytesSent, netspool, waitack⟩ := same old
  intro stream opened
  rw [bytesSent, netspool, waitack]
  exact positioned stream (fp ▸ opened)

/-- A file is opened at its beginning. -/
theorem pTxFopen_begins (conf : TransferConf) (answers : TxOpenAnswers) (finf : Finfo)
    (opened : (pTxFopen conf answers pi).2 = true)
    (current : (pTxFopen conf answers pi).1.sending = some finf) :
    finf.Positioned ∧ ∀ stream, finf.fp = some stream → stream.position = 0 := by
  have begun : ∀ (pi : Protinfo) (fresh : Finfo), (pi.begin fresh).sending = some fresh := by
    intro pi fresh
    simp [Protinfo.begin, Protinfo.sending]
  unfold pTxFopen at opened current
  dsimp only at opened current
  split at current
  · simp_all
  · rw [begun] at current
    obtain rfl := Option.some.inj current
    exact ⟨by rintro _ ⟨⟩, by rintro _ ⟨⟩⟩
  · split at current
    · rw [begun] at current
      obtain rfl := Option.some.inj current
      constructor
      · rintro stream opened
        cases opened
        exact ⟨rfl, rfl, rfl⟩
      · rintro stream opened
        cases opened
        rfl
    · simp_all

theorem streams_pTxFopen (streams : Streams pi) (conf : TransferConf) (answers : TxOpenAnswers) :
    Streams (pTxFopen conf answers pi).1 := by
  have begun : ∀ (finf : Finfo) (lists : FileLists) (netspool : Netspool), finf.Positioned →
      Streams (Protinfo.begin { pi with lists, netspool } finf) := by
    intro finf lists netspool positioned other member
    rcases List.mem_append.mp member with old | new
    · exact streams other old
    · rw [List.mem_singleton.mp new]
      exact positioned
  unfold pTxFopen
  dsimp only
  split
  · exact streams
  · exact begun _ _ _ nofun
  · split
    · refine begun _ _ pi.netspool ?_
      rintro stream opened
      cases opened
      exact ⟨rfl, rfl, rfl⟩
    · exact streams

theorem streams_pTxReopen (streams : Streams pi) (holdall : Bool) (hint : FileHint) :
    Streams (pTxReopen holdall hint pi).1 := by
  unfold pTxReopen
  split
  · exact streams
  · split
    · exact streams
    · split
      · exact streams
      · exact @streams_changeSend_mild { pi with send := some _ } streams _
          fun _ => ⟨rfl, rfl, rfl, rfl⟩

/-- Going to a position and counting from there. -/
theorem streams_rewound (streams : Streams pi) (pos skipped : Nat)
    (sought : (pTxRewind pos pi).2 = true) :
    Streams ((pTxRewind pos pi).1.changeSend fun finf =>
      { finf with bytesSkipped := skipped, bytesSent := pos }) := by
  unfold pTxRewind at sought ⊢
  split at sought
  · cases sought
  · rename_i stream there
    split at sought
    · cases sought
    · rename_i fits
      rw [if_neg fits]
      obtain ⟨current, sending, opened⟩ := Option.bind_eq_some_iff.mp there
      rw [changeSend_twice]
      refine streams_changeSend streams _ fun old same positioned => ?_
      obtain rfl : current = old := Option.some.inj (sending.symm.trans same)
      obtain ⟨_, plain, free⟩ := positioned stream opened
      rintro other given
      cases given
      exact ⟨rfl, plain, free⟩

theorem streams_pTxFclose (streams : Streams pi) (told : Bool) : Streams (pTxFclose told pi) := by
  unfold pTxFclose
  split
  · exact streams_modify streams _ (fun finf => { finf with fp := none }) (fun _ _ _ => nofun) rfl
  · exact streams

/-- Data that is read comes from where as much was sent, and the stream moves on. -/
theorem readLocal_data (answers : TxReadAnswers) (buflen : Nat) (stream : Stream) (finf : Finfo)
    (bytes : Bytes) (read : (readLocal answers buflen stream finf).2 = .data bytes) :
    ∃ eofseen, finf.bytesSent = stream.position ∧
      bytes = (stream.content.drop stream.position).take buflen ∧
      (readLocal answers buflen stream finf).1 =
        { finf with fp := some { stream with position := stream.position + bytes.length }, eofseen } := by
  unfold readLocal at read ⊢
  dsimp only at read ⊢
  split at read
  · cases read
  · rename_i counted
    rw [if_neg counted]
    split at read
    · cases read
    · rename_i there
      rw [if_neg there]
      split at read
      · rename_i short
        rw [if_pos short]
        split at read
        · rename_i readable
          rw [if_pos readable]
          cases read
          exact ⟨true, not_not.mp counted, rfl, rfl⟩
        · cases read
      · rename_i long
        rw [if_neg long]
        cases read
        exact ⟨false, not_not.mp counted, rfl, rfl⟩

/-- Reading data and counting it. -/
theorem streams_pTxReadfile (streams : Streams pi) (answers : TxReadAnswers) (buflen : Nat)
    (bytes : Bytes) (read : pTxReadfile answers buflen pi = some (after, .data bytes)) :
    Streams (after.changeSend fun finf =>
      { finf with bytesSent := finf.bytesSent + bytes.length }) := by
  unfold pTxReadfile at read
  split at read
  · cases read
  · rename_i finf current
    split at read
    · rename_i spooled
      have member : finf ∈ pi.sentfiles := by
        obtain ⟨index, _, found⟩ := Option.bind_eq_some_iff.mp current
        exact List.mem_of_getElem? found
      have shut : finf.fp = none := by
        by_contra opened
        obtain ⟨stream, opened⟩ := Option.ne_none_iff_exists'.mp opened
        exact absurd (streams finf member stream opened).2.1 (by simp [spooled])
      injection read with read
      unfold readNetspool at read
      split at read
      · cases read
      · dsimp only at read
        split at read
        · cases read
        · cases read
          rw [changeSend_twice]
          have spool : ∀ netspool, Streams { pi with netspool } := fun _ => streams
          refine streams_changeSend (spool _) _ fun old there _ stream opened => ?_
          obtain rfl : finf = old := Option.some.inj (current.symm.trans there)
          exact absurd (shut.symm.trans opened) nofun
    · split at read
      · cases read
      · rename_i stream opened
        simp only [Option.some.injEq, Prod.mk.injEq] at read
        obtain ⟨changed, result⟩ := read
        obtain ⟨eofseen, counted, _, local_file⟩ := readLocal_data answers buflen stream finf bytes result
        rw [← changed, changeSend_twice, local_file]
        refine streams_changeSend streams _ fun old there positioned => ?_
        obtain rfl : finf = old := Option.some.inj (current.symm.trans there)
        obtain ⟨_, plain, free⟩ := positioned stream opened
        rintro other given
        cases given
        exact ⟨by rw [counted], plain, free⟩

end Streams

end Binkleyforce
