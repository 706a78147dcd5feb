import Binkleyforce.Transfer.Sides
import Binkleyforce.Transfer.Tracked

/-!
# The life of a spool file

The server of the network spool announces a file, its bytes are read and sent on, the remote
acknowledges it, and the server is told so and asked for the next one. The files sent and the
state of the spool say together how far that has come.
-/

namespace Binkleyforce

/-- No file of the lists is to be acknowledged to the server: only `p_tx_fopen` sets that action. -/
def FileLists.Ordinary (lists : FileLists) : Prop :=
  ∀ entry ∈ lists.queue ++ lists.filelist, entry.action ≠ .acknowledge

/-- The place in a list of files is that of a spool file. -/
def IsSpool (files : List Finfo) (index : Nat) : Prop :=
  ∃ finf, files[index]? = some finf ∧ finf.netspool = true

/-- The files for which `netspool_acknowledge` was called, in that order. -/
def spoolAcks (effects : List Disposal) : List Nat :=
  (effects.filter (·.action = .acknowledge)).map (·.index)

/-- The server is told of a spool file once, after all of its bytes were sent and the remote has
acknowledged it, and a file is announced after the server was told of those before it. -/
structure SpoolTold (gots : List FileHint) (pi : Protinfo) : Prop where
  once : (spoolAcks pi.effects).Nodup
  confirmed : ∀ index ∈ spoolAcks pi.effects, ∃ finf, pi.sentfiles[index]? = some finf ∧
    finf.netspool = true ∧ finf.bytesSent = finf.bytesTotal ∧ finf.hint ∈ gots
  ordered : ∀ first second, first < second → IsSpool pi.sentfiles first → IsSpool pi.sentfiles second →
    first ∈ spoolAcks pi.effects

/-- The file that the spool is reading: the last one it announced, under its name, with what is still
to be read. -/
structure SpoolReads (conf : TransferConf) (pi : Protinfo) (index : Nat) (finf : Finfo) : Prop where
  there : pi.sentfiles[index]? = some finf
  spool : finf.netspool = true
  untold : index ∉ spoolAcks pi.effects
  last : ∀ later, index < later → ¬ IsSpool pi.sentfiles later
  left : finf.bytesSent + pi.netspool.length = finf.bytesTotal
  ended : finf.status = .waitack → pi.netspool.length = 0
  named : finf.netName = conf.netName pi.netspool.filename (conf.filetype pi.netspool.filename)

/-- Where nothing is being read the server was told of every file, and where something is, that is
the last file. -/
structure SpoolStands (conf : TransferConf) (pi : Protinfo) : Prop where
  idle : pi.netspool.state ≠ .recvfile → ∀ index, IsSpool pi.sentfiles index → index ∈ spoolAcks pi.effects
  reads : pi.netspool.state = .recvfile → ∃ index finf, SpoolReads conf pi index finf

/-- What holds of the files sent and the spool throughout a transfer. -/
structure SpoolFiles (conf : TransferConf) (gots : List FileHint) (pi : Protinfo) : Prop where
  ordinary : pi.lists.Ordinary
  spools : ∀ finf ∈ pi.sentfiles, finf.netspool = true → finf.fp = none ∧ finf.action = .acknowledge
  locals : ∀ finf ∈ pi.sentfiles, finf.netspool = false → finf.action ≠ .acknowledge
  told : SpoolTold gots pi
  ended : ∀ index ∈ spoolAcks pi.effects, ∀ finf, pi.sentfiles[index]? = some finf → finf.status ≠ .waitack
  sends : ∀ index, pi.send = some index → IsSpool pi.sentfiles index →
    ∀ later, index < later → ¬ IsSpool pi.sentfiles later
  stands : SpoolStands conf pi

/-- It holds before the first file is announced. -/
theorem SpoolFiles.initial {conf : TransferConf} {gots : List FileHint} {pi : Protinfo} (ordinary : pi.lists.Ordinary)
    (files : pi.sentfiles = []) (effects : pi.effects = []) (send : pi.send = none)
    (state : pi.netspool.state ≠ .recvfile) : SpoolFiles conf gots pi := by
  have none_ : ∀ place, ¬ IsSpool pi.sentfiles place := by
    rintro place ⟨finf, there, -⟩
    rw [files] at there
    cases there
  have absent : ∀ finf, finf ∉ pi.sentfiles := by
    rw [files]
    exact fun _ => List.not_mem_nil
  have untold : ∀ index, index ∉ spoolAcks pi.effects := by
    rw [effects]
    exact fun _ => List.not_mem_nil
  constructor
  · exact ordinary
  · exact fun finf member => absurd member (absent finf)
  · exact fun finf member => absurd member (absent finf)
  · constructor
    · rw [effects]
      exact List.nodup_nil
    · exact fun index acknowledged => absurd acknowledged (untold index)
    · exact fun first _ _ one => absurd one (none_ first)
  · exact fun index acknowledged => absurd acknowledged (untold index)
  · intro index sending
    rw [send] at sending
    cases sending
  · constructor
    · exact fun _ place one => absurd one (none_ place)
    · exact fun receiving => absurd receiving state

/-- A change that what is known of a spool file does not depend on. -/
structure Aside (old new : Finfo) : Prop where
  netspool : new.netspool = old.netspool
  action : new.action = old.action
  hint : new.hint = old.hint
  spool : old.netspool = true → new.fp = none ∧ new.bytesSent = old.bytesSent ∧
    (new.status = .waitack → old.status = .waitack)

section SpoolFiles

variable {conf : TransferConf} {gots : List FileHint} {pi after : Protinfo}

/-- A file of a list that was changed at one place. -/
theorem modify_some {α : Type} {list : List α} {index place : Nat} {change : α → α} {element : α}
    (there : (list.modify index change)[place]? = some element) :
    ∃ old, list[place]? = some old ∧ (element = old ∨ place = index ∧ element = change old) := by
  rw [List.getElem?_modify] at there
  obtain ⟨old, found, changed⟩ := Option.map_eq_some_iff.mp there
  refine ⟨old, found, ?_⟩
  split at changed
  · rename_i same
    exact .inr ⟨same.symm, changed.symm⟩
  · exact .inl changed.symm

/-- A file that was there, is there after the change. -/
theorem modify_there {α : Type} {list : List α} {place : Nat} {element : α} (index : Nat) (change : α → α)
    (there : list[place]? = some element) :
    (list.modify index change)[place]? = some (if index = place then change element else element) := by
  rw [List.getElem?_modify, there]
  rfl

/-- A change that keeps which files are of the spool keeps the places of those. -/
theorem isSpool_modify {files : List Finfo} {index : Nat} {change : Finfo → Finfo}
    (same : ∀ old, files[index]? = some old → (change old).netspool = old.netspool) (place : Nat) :
    IsSpool (files.modify index change) place ↔ IsSpool files place := by
  constructor
  · rintro ⟨finf, there, spool⟩
    obtain ⟨old, found, rfl | ⟨rfl, rfl⟩⟩ := modify_some there
    · exact ⟨finf, found, spool⟩
    · exact ⟨old, found, (same old found).symm.trans spool⟩
  · rintro ⟨finf, there, spool⟩
    refine ⟨_, modify_there index change there, ?_⟩
    split
    · rename_i here
      subst here
      exact (same finf there).trans spool
    · exact spool

/-- What is known does not depend on such a change. -/
theorem SpoolFiles.aside (kept : SpoolFiles conf gots pi) (index : Nat) (change : Finfo → Finfo)
    (aside : ∀ old, pi.sentfiles[index]? = some old → Aside old (change old))
    (files : after.sentfiles = pi.sentfiles.modify index change) (acks : spoolAcks after.effects = spoolAcks pi.effects)
    (spool : after.netspool = pi.netspool) (ordinary : after.lists.Ordinary)
    (sends : ∀ place, after.send = some place → IsSpool pi.sentfiles place →
      ∀ later, place < later → ¬ IsSpool pi.sentfiles later) :
    SpoolFiles conf gots after := by
  have spools : ∀ place, IsSpool after.sentfiles place ↔ IsSpool pi.sentfiles place := by
    rw [files]
    exact isSpool_modify fun old found => (aside old found).netspool
  have there : ∀ {place : Nat} {finf : Finfo}, pi.sentfiles[place]? = some finf →
      ∃ new : Finfo, after.sentfiles[place]? = some new ∧ (finf.netspool = true → new.netspool = true ∧ new.bytesSent = finf.bytesSent ∧ new.hint = finf.hint ∧
        (new.status = .waitack → finf.status = .waitack)) := by
    intro place finf found
    refine ⟨_, files ▸ modify_there index change found, ?_⟩
    split
    · rename_i here
      subst here
      obtain ⟨netspool, -, hint, whole⟩ := aside finf found
      intro spool
      obtain ⟨-, sent, status⟩ := whole spool
      exact ⟨netspool.trans spool, sent, hint, status⟩
    · exact fun spool => ⟨spool, rfl, rfl, id⟩
  constructor
  · exact ordinary
  · intro finf member network
    rcases mem_modify (files ▸ member) with same | ⟨old, found, rfl⟩
    · exact kept.spools finf same network
    · obtain ⟨netspool, action, -, whole⟩ := aside old found
      have before : old.netspool = true := netspool.symm.trans network
      exact ⟨(whole before).1, action.trans (kept.spools old (List.mem_of_getElem? found) before).2⟩
  · intro finf member network
    rcases mem_modify (files ▸ member) with same | ⟨old, found, rfl⟩
    · exact kept.locals finf same network
    · obtain ⟨netspool, action, -, -⟩ := aside old found
      rw [action]
      exact kept.locals old (List.mem_of_getElem? found) (netspool.symm.trans network)
  · constructor
    · rw [acks]
      exact kept.told.once
    · intro place acknowledged
      rw [acks] at acknowledged
      obtain ⟨finf, found, network, whole, got⟩ := kept.told.confirmed place acknowledged
      obtain ⟨new, standing, same⟩ := there found
      obtain ⟨still, sent, hint, -⟩ := same network
      have total : new.bytesTotal = finf.bytesTotal := congrArg FileHint.sz hint
      exact ⟨new, standing, still, by rw [sent, total, whole], hint ▸ got⟩
    · intro first second before one other
      rw [acks]
      exact kept.told.ordered first second before ((spools first).mp one) ((spools second).mp other)
  · intro place acknowledged new standing waiting
    rw [acks] at acknowledged
    obtain ⟨finf, found, network, -, -⟩ := kept.told.confirmed place acknowledged
    obtain ⟨other, standing', same⟩ := there found
    obtain rfl : other = new := Option.some.inj (standing'.symm.trans standing)
    exact kept.ended place acknowledged finf found ((same network).2.2.2 waiting)
  · intro place sending one later further
    rw [spools] at one ⊢
    exact sends place sending one later further
  · constructor
    · intro quiet place one
      rw [acks]
      exact kept.stands.idle (spool ▸ quiet) place ((spools place).mp one)
    · intro reading
      obtain ⟨place, finf, reads⟩ := kept.stands.reads (spool ▸ reading)
      obtain ⟨new, standing, same⟩ := there reads.there
      obtain ⟨still, sent, hint, status⟩ := same reads.spool
      refine ⟨place, new, standing, still, acks ▸ reads.untold, ?_, ?_, ?_, ?_⟩
      · intro later further
        rw [spools]
        exact reads.last later further
      · rw [sent, spool, reads.left]
        exact (congrArg FileHint.sz hint).symm
      · intro waiting
        rw [spool]
        exact reads.ended (status waiting)
      · rw [spool, ← reads.named]
        exact congrArg FileHint.fn hint

/-- What does not concern the sending of files keeps it. -/
theorem SpoolFiles.same (kept : SpoolFiles conf gots pi) (part : after.sendingPart = pi.sendingPart)
    (ordinary : after.lists.Ordinary) : SpoolFiles conf gots after := by
  simp only [Protinfo.sendingPart, Prod.mk.injEq] at part
  obtain ⟨files, send, spool, effects, -⟩ := part
  apply kept.aside 0 id
  · intro old _
    exact ⟨rfl, rfl, rfl, fun network => ⟨(kept.spools old (List.mem_of_getElem? ‹_›) network).1, rfl, id⟩⟩
  · rw [files, List.modify_id]
  · rw [effects]
  · exact spool
  · exact ordinary
  · intro place sending
    exact kept.sends place (send ▸ sending)

/-! ## Opening a file -/

/-- Marking a file as being sent leaves the actions. -/
theorem ordinary_begin {lists : FileLists} (ordinary : lists.Ordinary) (source : Source) :
    (lists.begin source).Ordinary := by
  have begun : ∀ {entries : List FileEntry} {place : Nat} {entry : FileEntry},
      entry ∈ entries.modify place FileEntry.begin → ∃ old ∈ entries, entry.action = old.action := by
    intro entries place entry member
    rcases mem_modify member with same | ⟨old, found, rfl⟩
    · exact ⟨entry, same, rfl⟩
    · exact ⟨old, List.mem_of_getElem? found, rfl⟩
  intro entry member
  cases source with
  | queue place =>
    rcases List.mem_append.mp member with one | other
    · obtain ⟨old, there, same⟩ := begun one
      rw [same]
      exact ordinary old (List.mem_append_left _ there)
    · exact ordinary entry (List.mem_append_right _ other)
  | filelist place =>
    rcases List.mem_append.mp member with one | other
    · exact ordinary entry (List.mem_append_left _ one)
    · obtain ⟨old, there, same⟩ := begun other
      rw [same]
      exact ordinary old (List.mem_append_right _ there)
  | network => exact ordinary entry member

/-- So does looking for a file to open. -/
theorem ordinary_openNext {lists : FileLists} (accessible : Source → Bool) (network : Bool) (fuel : Nat)
    (ordinary : lists.Ordinary) : (openNext accessible network fuel lists).1.Ordinary := by
  induction fuel generalizing lists with
  | zero => exact ordinary
  | succ fuel inductionHypothesis =>
    simp only [openNext]
    split
    · exact ordinary
    · exact ordinary
    · split
      · exact ordinary_begin ordinary _
      · exact inductionHypothesis (ordinary_begin ordinary _)

/-- A spool file is opened only where the spool offers one. -/
theorem openNext_network {accessible : Source → Bool} {network : Bool} {fuel : Nat} {lists : FileLists}
    (chosen : (openNext accessible network fuel lists).2 = some .network) : network = true := by
  induction fuel generalizing lists with
  | zero => cases chosen
  | succ fuel inductionHypothesis =>
    simp only [openNext] at chosen
    split at chosen
    · cases chosen
    · rename_i offered
      unfold protGetNextFile at offered
      split at offered
      · cases offered
      · split at offered
        · cases offered
        · split at offered
          · assumption
          · cases offered
    · rename_i source distant _
      split at chosen
      · exact absurd (Option.some.inj chosen) distant
      · exact inductionHypothesis chosen

/-- An entry of such lists is not to be acknowledged. -/
theorem ordinary_entry {lists : FileLists} (ordinary : lists.Ordinary) {source : Source} {entry : FileEntry}
    (there : lists.entry source = some entry) : entry.action ≠ .acknowledge := by
  cases source with
  | queue place => exact ordinary entry (List.mem_append_left _ (List.mem_of_getElem? there))
  | filelist place => exact ordinary entry (List.mem_append_right _ (List.mem_of_getElem? there))
  | network => cases there

/-- A spool that reads a file does not ask for another one. -/
theorem next_reading (replies : NetspoolReplies) (noRemoteaddr : Bool) {spool : Netspool}
    (reading : spool.state = .recvfile) : spool.next replies noRemoteaddr = (spool, false) := by
  unfold Netspool.next Netspool.ask
  simp [reading]

/-- A file that is appended is the only one that may be new at its place. -/
theorem isSpool_snoc (files : List Finfo) (finf : Finfo) (place : Nat) :
    IsSpool (files ++ [finf]) place ↔
      IsSpool files place ∨ place = files.length ∧ finf.netspool = true := by
  constructor
  · rintro ⟨other, there, spool⟩
    rcases Nat.lt_trichotomy place files.length with before | same | beyond
    · rw [List.getElem?_append_left before] at there
      exact .inl ⟨other, there, spool⟩
    · subst same
      rw [List.getElem?_concat_length] at there
      cases there
      exact .inr ⟨rfl, spool⟩
    · rw [List.getElem?_eq_none (by simp; omega)] at there
      cases there
  · rintro (⟨other, there, spool⟩ | ⟨rfl, spool⟩)
    · exact ⟨other, by rw [List.getElem?_append_left (List.getElem?_eq_some_iff.mp there).1, there], spool⟩
    · exact ⟨finf, List.getElem?_concat_length, spool⟩

/-- The place of a spool file is inside of the list. -/
theorem IsSpool.inside {files : List Finfo} {place : Nat} (spool : IsSpool files place) :
    place < files.length := by
  obtain ⟨finf, there, -⟩ := spool
  exact (List.getElem?_eq_some_iff.mp there).1

/-- A file that is there stays there where another one is appended. -/
theorem snoc_there {files : List Finfo} {place : Nat} {finf : Finfo} (there : files[place]? = some finf)
    (other : Finfo) : (files ++ [other])[place]? = some finf := by
  rw [List.getElem?_append_left (List.getElem?_eq_some_iff.mp there).1, there]

/-- What is known of the files that the server was told of does not depend on a file that begins,
if the server was told of all others where that is a spool file. -/
theorem SpoolTold.begin (told : SpoolTold gots pi) (finf : Finfo)
    (alone : finf.netspool = true → ∀ place, IsSpool pi.sentfiles place → place ∈ spoolAcks pi.effects) :
    SpoolTold gots (pi.begin finf) := by
  constructor
  · exact told.once
  · intro place acknowledged
    obtain ⟨old, there, facts⟩ := told.confirmed place acknowledged
    exact ⟨old, snoc_there there finf, facts⟩
  · intro first second before one other
    rcases (isSpool_snoc _ _ _).mp one with earlier | ⟨same, -⟩
    · rcases (isSpool_snoc _ _ _).mp other with later | ⟨-, network⟩
      · exact told.ordered first second before earlier later
      · exact alone network first earlier
    · have inside : second < (pi.sentfiles ++ [finf]).length := other.inside
      rw [List.length_append, List.length_singleton] at inside
      omega

/-- A local file that begins leaves what is known of the spool files. -/
theorem SpoolFiles.begin_local (kept : SpoolFiles conf gots pi) (finf : Finfo) (plain : finf.netspool = false)
    (action : finf.action ≠ .acknowledge) : SpoolFiles conf gots (pi.begin finf) := by
  have spools : ∀ place, IsSpool (pi.sentfiles ++ [finf]) place ↔ IsSpool pi.sentfiles place := by
    intro place
    rw [isSpool_snoc, plain]
    simp
  constructor
  · exact kept.ordinary
  · intro other member network
    rcases List.mem_append.mp member with old | new
    · exact kept.spools other old network
    · rw [List.mem_singleton.mp new, plain] at network
      cases network
  · intro other member network
    rcases List.mem_append.mp member with old | new
    · exact kept.locals other old network
    · rw [List.mem_singleton.mp new]
      exact action
  · apply kept.told.begin
    intro network
    rw [plain] at network
    cases network
  · intro place acknowledged other there
    obtain ⟨old, found, -⟩ := kept.told.confirmed place acknowledged
    obtain rfl : old = other := Option.some.inj ((snoc_there found finf).symm.trans there)
    exact kept.ended place acknowledged old found
  · rintro place ⟨⟩ one
    have inside := ((spools _).mp one).inside
    omega
  · constructor
    · intro quiet place one
      exact kept.stands.idle quiet place ((spools place).mp one)
    · intro reading
      obtain ⟨place, other, reads⟩ := kept.stands.reads reading
      refine ⟨place, other, snoc_there reads.there finf, reads.spool, reads.untold, ?_, reads.left,
        reads.ended, reads.named⟩
      intro later further one
      exact reads.last later further ((spools later).mp one)

/-- Where the server was told of all files, the file that it announces begins. -/
theorem SpoolFiles.begin_spool (kept : SpoolFiles conf gots pi) (quiet : pi.netspool.state ≠ .recvfile)
    {spool : Netspool} (reading : spool.state = .recvfile) (now : Int) :
    SpoolFiles conf gots (Protinfo.begin { pi with netspool := spool } (txNetspool conf now spool)) := by
  have alone := kept.stands.idle quiet
  have fresh : ∀ place ∈ spoolAcks pi.effects, place < pi.sentfiles.length := by
    intro place acknowledged
    obtain ⟨finf, there, -⟩ := kept.told.confirmed place acknowledged
    exact (List.getElem?_eq_some_iff.mp there).1
  have last : ∀ later, pi.sentfiles.length < later →
      ¬ IsSpool (pi.sentfiles ++ [txNetspool conf now spool]) later := by
    intro later further one
    have inside := one.inside
    rw [List.length_append, List.length_singleton] at inside
    omega
  constructor
  · exact kept.ordinary
  · intro other member network
    rcases List.mem_append.mp member with old | new
    · exact kept.spools other old network
    · rw [List.mem_singleton.mp new]
      exact ⟨rfl, rfl⟩
  · intro other member network
    rcases List.mem_append.mp member with old | new
    · exact kept.locals other old network
    · rw [List.mem_singleton.mp new] at network
      cases network
  · have told : SpoolTold gots { pi with netspool := spool } :=
      ⟨kept.told.once, kept.told.confirmed, kept.told.ordered⟩
    exact told.begin _ fun _ => alone
  · intro place acknowledged other there
    obtain ⟨old, found, -⟩ := kept.told.confirmed place acknowledged
    obtain rfl : old = other := Option.some.inj ((snoc_there found _).symm.trans there)
    exact kept.ended place acknowledged old found
  · rintro place ⟨⟩ one
    exact last
  · constructor
    · intro idle
      exact absurd reading idle
    · intro _
      refine ⟨pi.sentfiles.length, txNetspool conf now spool, List.getElem?_concat_length, rfl, ?_, last,
        Nat.zero_add _, fun waiting => (nomatch waiting), rfl⟩
      intro acknowledged
      exact absurd (fresh _ acknowledged) (Nat.lt_irrefl _)

/-- The state of a spool that reads nothing may change, as long as it reads nothing. -/
theorem SpoolFiles.spool_quiet (kept : SpoolFiles conf gots pi) (quiet : pi.netspool.state ≠ .recvfile)
    {spool : Netspool} (still : spool.state ≠ .recvfile) :
    SpoolFiles conf gots { pi with netspool := spool } where
  ordinary := kept.ordinary
  spools := kept.spools
  locals := kept.locals
  told := ⟨kept.told.once, kept.told.confirmed, kept.told.ordered⟩
  ended := kept.ended
  sends := kept.sends
  stands := ⟨fun _ => kept.stands.idle quiet, fun reading => absurd reading still⟩

/-- Other lists of files to send change nothing. -/
theorem SpoolFiles.lists_ordinary (kept : SpoolFiles conf gots pi) {lists : FileLists}
    (ordinary : lists.Ordinary) : SpoolFiles conf gots { pi with lists } where
  ordinary := ordinary
  spools := kept.spools
  locals := kept.locals
  told := ⟨kept.told.once, kept.told.confirmed, kept.told.ordered⟩
  ended := kept.ended
  sends := kept.sends
  stands := ⟨kept.stands.idle, fun reading => by
    obtain ⟨place, finf, reads⟩ := kept.stands.reads reading
    exact ⟨place, finf, reads.there, reads.spool, reads.untold, reads.last, reads.left, reads.ended,
      reads.named⟩⟩

/-- `p_tx_fopen` keeps it. -/
theorem SpoolFiles.open_next (kept : SpoolFiles conf gots pi) (holder : TransferConf)
    (same : holder.netName = conf.netName ∧ holder.filetype = conf.filetype) (answers : TxOpenAnswers) :
    SpoolFiles conf gots (pTxFopen holder answers pi).1 := by
  have lists : (pTxFopenNext holder.holdall (fun source => (answers.opens source).isSome)
      (pi.netspool.next answers.network holder.noRemoteaddr).2 pi.lists).1.Ordinary := by
    unfold pTxFopenNext
    split
    · exact kept.ordinary
    · exact ordinary_openNext _ _ _ kept.ordinary
  have record : ∀ spool, txNetspool holder answers.now spool = txNetspool conf answers.now spool := by
    intro spool
    simp only [txNetspool, same.1, same.2]
  unfold pTxFopen
  dsimp only
  split
  · rename_i after nothing
    rw [nothing] at lists
    split
    · exact kept.lists_ordinary lists
    · rename_i going
      by_cases reading : pi.netspool.state = .recvfile
      · rw [next_reading _ _ reading]
        exact kept.lists_ordinary lists
      · refine (kept.spool_quiet reading ?_).lists_ordinary lists
        intro offers
        have offered := (next_recvfile _ _ _ offers).resolve_left reading
        have found := openNext_offered (fun source => (answers.opens source).isSome) (pi.lists.waiting + 1)
          pi.lists (Nat.lt_succ_self _)
        simp only [pTxFopenNext, going, offered, Bool.false_eq_true, if_false] at nothing
        exact found (by rw [nothing])
  · rename_i after network
    rw [network] at lists
    have offered : (pi.netspool.next answers.network holder.noRemoteaddr).2 = true := by
      unfold pTxFopenNext at network
      split at network
      · cases network
      · exact openNext_network (congrArg Prod.snd network)
    have quiet : pi.netspool.state ≠ .recvfile := by
      intro reading
      rw [next_reading _ _ reading] at offered
      cases offered
    rw [record]
    exact (kept.lists_ordinary lists).begin_spool quiet (Netspool.next_offers _ _ _ offered) answers.now
  · rename_i after source distant chosen
    rw [chosen] at lists
    split
    · rename_i entry file there _
      apply (kept.lists_ordinary lists).begin_local
      · rfl
      · exact ordinary_entry kept.ordinary there
    · exact kept.lists_ordinary lists

/-! ## Files that are not of the spool -/

/-- What is known does not depend on a local file that is being sent. -/
theorem SpoolFiles.change_local (kept : SpoolFiles conf gots pi) (change : Finfo → Finfo)
    (plain : ∀ finf, pi.sending = some finf → finf.netspool = false)
    (same : ∀ old, pi.sending = some old → (change old).netspool = old.netspool ∧
      (change old).action = old.action ∧ (change old).hint = old.hint) :
    SpoolFiles conf gots (pi.changeSend change) := by
  unfold Protinfo.changeSend
  cases current : pi.send with
  | none => exact kept
  | some index =>
    have sending : ∀ old, pi.sentfiles[index]? = some old → pi.sending = some old := by
      intro old found
      rw [Protinfo.sending, current]
      exact found
    apply kept.aside index change
    · intro old found
      obtain ⟨netspool, action, hint⟩ := same old (sending old found)
      refine ⟨netspool, action, hint, fun network => ?_⟩
      rw [plain old (sending old found)] at network
      cases network
    · rfl
    · rfl
    · rfl
    · exact kept.ordinary
    · exact kept.sends

/-- A file with an open stream is not of the spool. -/
theorem SpoolFiles.open_local (kept : SpoolFiles conf gots pi) {finf : Finfo} (member : finf ∈ pi.sentfiles)
    (opened : finf.fp ≠ none) : finf.netspool = false := by
  by_contra network
  exact opened (kept.spools finf member (Bool.not_eq_false _ ▸ network)).1

/-- `p_tx_fopen` with a hint keeps it, and the file it goes back to is a local one. -/
theorem SpoolFiles.reopen (kept : SpoolFiles conf gots pi) (holdall : Bool) (hint : FileHint) :
    SpoolFiles conf gots (pTxReopen holdall hint pi).1 ∧
      ((pTxReopen holdall hint pi).2 = true →
        ∀ finf, (pTxReopen holdall hint pi).1.sending = some finf → finf.netspool = false) := by
  unfold pTxReopen
  split
  · exact ⟨kept, fun failed => nomatch failed⟩
  · split
    · exact ⟨kept, fun failed => nomatch failed⟩
    · rename_i index _
      split
      · exact ⟨kept, fun failed => nomatch failed⟩
      · rename_i opened
        have plain : ∀ old, pi.sentfiles[index]? = some old → old.netspool = false := by
          intro old found
          apply kept.open_local (List.mem_of_getElem? found)
          intro closed
          simp [found, closed] at opened
        constructor
        · apply kept.aside index (fun finf => { finf with eofseen := false, status := .process })
          · intro old found
            refine ⟨rfl, rfl, rfl, fun network => ?_⟩
            rw [plain old found] at network
            cases network
          · rfl
          · rfl
          · rfl
          · exact kept.ordinary
          · rintro place ⟨⟩ ⟨finf, found, network⟩
            rw [plain finf found] at network
            cases network
        · intro _ finf current
          rw [changeSend_sending] at current
          obtain ⟨old, found, rfl⟩ := Option.map_eq_some_iff.mp current
          exact plain old found

/-- A seek keeps it, and is in a local file. -/
theorem SpoolFiles.rewind (kept : SpoolFiles conf gots pi) (pos : Nat) :
    SpoolFiles conf gots (pTxRewind pos pi).1 ∧
      ((pTxRewind pos pi).2 = true →
        ∀ finf, (pTxRewind pos pi).1.sending = some finf → finf.netspool = false) := by
  unfold pTxRewind
  split
  · exact ⟨kept, fun failed => nomatch failed⟩
  · rename_i stream opened
    split
    · exact ⟨kept, fun failed => nomatch failed⟩
    · have plain : ∀ finf, pi.sending = some finf → finf.netspool = false := by
        intro finf current
        apply kept.open_local (sending_mem current)
        intro closed
        simp [current, closed] at opened
      refine ⟨kept.change_local _ plain fun _ _ => ⟨rfl, rfl, rfl⟩, fun _ finf current => ?_⟩
      rw [changeSend_sending] at current
      obtain ⟨old, found, rfl⟩ := Option.map_eq_some_iff.mp current
      exact plain old found

/-- The server is not told of a file that has another action. -/
theorem postSend_local {finf : Finfo} (action : finf.action ≠ .acknowledge) : .acknowledge ∉ postSend finf := by
  unfold postSend
  intro member
  split at member
  · rcases List.mem_append.mp member with marked | other
    · split at marked
      · cases List.mem_singleton.mp marked
      · cases marked
    · cases kind : finf.action with
      | acknowledge => exact action kind
      | nothing | unlink | forceUnlink | truncate => simp [kind] at other
  · cases member

/-- Disposals other than that are none of the server's. -/
theorem spoolAcks_local (effects : List Disposal) (index : Nat) {finf : Finfo}
    (action : finf.action ≠ .acknowledge) :
    spoolAcks (effects ++ (postSend finf).map (Disposal.mk index)) = spoolAcks effects := by
  have none_ : ((postSend finf).map (Disposal.mk index)).filter (·.action = .acknowledge) = [] := by
    rw [List.filter_eq_nil_iff]
    intro disposal member
    obtain ⟨post, there, rfl⟩ := List.mem_map.mp member
    intro acknowledges
    exact postSend_local action (of_decide_eq_true acknowledges ▸ there)
  unfold spoolAcks
  rw [List.filter_append, none_, List.append_nil]

/-- Closing a local file keeps it. -/
theorem SpoolFiles.close_local (kept : SpoolFiles conf gots pi) (told : Bool)
    (plain : ∀ finf, pi.sending = some finf → finf.netspool = false) :
    SpoolFiles conf gots (pTxFclose told pi) := by
  unfold pTxFclose
  split
  · rename_i index finf _ current
    have action := kept.locals finf (sending_mem current) (plain finf current)
    apply kept.aside index (fun finf => { finf with fp := none })
    · exact fun _ _ => ⟨rfl, rfl, rfl, fun _ => ⟨rfl, rfl, id⟩⟩
    · rfl
    · exact spoolAcks_local _ _ action
    · exact if_neg (postSend_local action)
    · exact kept.ordinary
    · exact fun _ none_ => nomatch none_
  · apply kept.aside 0 id
    · intro old found
      exact ⟨rfl, rfl, rfl, fun network => ⟨(kept.spools old (List.mem_of_getElem? found) network).1, rfl, id⟩⟩
    · rw [List.modify_id]
    · rfl
    · rfl
    · exact kept.ordinary
    · exact fun _ none_ => nomatch none_

/-! ## Acknowledgements -/

/-- More acknowledgements of the remote keep it. -/
theorem SpoolFiles.gots_more (kept : SpoolFiles conf gots pi) (more : List FileHint) :
    SpoolFiles conf (gots ++ more) pi where
  ordinary := kept.ordinary
  spools := kept.spools
  locals := kept.locals
  told := ⟨kept.told.once, fun index acknowledged => by
    obtain ⟨finf, there, network, whole, got⟩ := kept.told.confirmed index acknowledged
    exact ⟨finf, there, network, whole, List.mem_append_left more got⟩, kept.told.ordered⟩
  ended := kept.ended
  sends := kept.sends
  stands := kept.stands

/-- A spool file that waits for its acknowledgement is the one that the spool has read, and all of it
was read. -/
theorem SpoolFiles.waiting (kept : SpoolFiles conf gots pi) {index : Nat} {finf : Finfo}
    (there : pi.sentfiles[index]? = some finf) (network : finf.netspool = true)
    (waits : finf.status = .waitack) :
    pi.netspool.state = .recvfile ∧ pi.netspool.length = 0 ∧ SpoolReads conf pi index finf := by
  have untold : index ∉ spoolAcks pi.effects := fun acknowledged =>
    kept.ended index acknowledged finf there waits
  have reading : pi.netspool.state = .recvfile := by
    by_contra quiet
    exact untold (kept.stands.idle quiet index ⟨finf, there, network⟩)
  obtain ⟨place, other, reads⟩ := kept.stands.reads reading
  obtain rfl : place = index := by
    rcases Nat.lt_trichotomy place index with before | same | beyond
    · exact absurd ⟨finf, there, network⟩ (reads.last index before)
    · exact same
    · exact absurd (kept.told.ordered index place beyond ⟨finf, there, network⟩
        ⟨other, reads.there, reads.spool⟩) untold
  obtain rfl : other = finf := Option.some.inj (reads.there.symm.trans there)
  exact ⟨reading, reads.ended waits, reads⟩

/-- Closing a local file of the list with a status keeps it. -/
theorem SpoolFiles.close_other (kept : SpoolFiles conf gots pi) (told : Bool) {index : Nat} {finf : Finfo}
    (status : Fstat) (there : pi.sentfiles[index]? = some finf) (plain : finf.netspool = false) :
    SpoolFiles conf gots { pTxFclose told ({ pi with send := some index }.changeSend
      fun finf => { finf with status }) with send := pi.send } := by
  have action := kept.locals finf (List.mem_of_getElem? there) plain
  rw [pTxFclose_status pi told index finf status there]
  apply kept.aside index (fun finf => { finf with status, fp := none })
  · intro old found
    obtain rfl : finf = old := Option.some.inj (there.symm.trans found)
    refine ⟨rfl, rfl, rfl, fun network => ?_⟩
    rw [plain] at network
    cases network
  · rfl
  · apply spoolAcks_local
    exact action
  · apply if_neg
    apply postSend_local
    exact action
  · exact kept.ordinary
  · exact kept.sends

/-- The server is told of a spool file that was sent. -/
theorem spoolAcks_spool (effects : List Disposal) (index : Nat) {finf : Finfo}
    (action : finf.action = .acknowledge) :
    spoolAcks (effects ++ (postSend { finf with status := .success }).map (Disposal.mk index)) =
      spoolAcks effects ++ [index] := by
  have one : ((postSend { finf with status := .success }).map (Disposal.mk index)).filter
      (·.action = .acknowledge) = [⟨index, .acknowledge⟩] := by
    unfold postSend
    rw [if_pos (.inl rfl)]
    dsimp only
    rw [action]
    split <;> rfl
  unfold spoolAcks
  rw [List.filter_append, one, List.map_append]
  rfl

/-- Where the remote acknowledges a spool file the server is told of it. -/
theorem SpoolFiles.acknowledge (kept : SpoolFiles conf gots pi) (told : Bool) {index : Nat} {finf : Finfo}
    (there : pi.sentfiles[index]? = some finf) (network : finf.netspool = true)
    (waits : finf.status = .waitack) :
    SpoolFiles conf (gots ++ [finf.hint]) { pTxFclose told ({ pi with send := some index }.changeSend
      fun finf => { finf with status := .success }) with send := pi.send } := by
  obtain ⟨reading, read, reads⟩ := kept.waiting there network waits
  have action := (kept.spools finf (List.mem_of_getElem? there) network).2
  have acks := spoolAcks_spool pi.effects index action
  have tells : .acknowledge ∈ postSend { finf with status := .success } := by
    unfold postSend
    rw [if_pos (.inl rfl)]
    dsimp only
    rw [action]
    exact List.mem_append_right _ (List.mem_singleton_self _)
  have quiet := acknowledge_state told pi.netspool
  rw [pTxFclose_status pi told index finf .success there, if_pos tells]
  have spools : ∀ place, IsSpool (pi.sentfiles.modify index fun finf =>
      { finf with status := .success, fp := none }) place ↔ IsSpool pi.sentfiles place :=
    isSpool_modify fun _ _ => rfl
  have after : ∀ {place : Nat} {other : Finfo}, pi.sentfiles[place]? = some other →
      ∃ new : Finfo, (pi.sentfiles.modify index fun finf =>
        { finf with status := .success, fp := none })[place]? = some new ∧ new.netspool = other.netspool ∧
          new.bytesSent = other.bytesSent ∧ new.hint = other.hint ∧
            (new.status = .waitack → other.status = .waitack) := by
    intro place other found
    refine ⟨_, modify_there index _ found, ?_⟩
    split
    · exact ⟨rfl, rfl, rfl, fun waiting => nomatch waiting⟩
    · exact ⟨rfl, rfl, rfl, id⟩
  constructor
  · exact kept.ordinary
  · intro other member spool
    rcases mem_modify member with same | ⟨old, found, rfl⟩
    · exact kept.spools other same spool
    · exact ⟨rfl, (kept.spools old (List.mem_of_getElem? found) spool).2⟩
  · intro other member plain
    rcases mem_modify member with same | ⟨old, found, rfl⟩
    · exact kept.locals other same plain
    · exact kept.locals old (List.mem_of_getElem? found) plain
  · constructor
    · rw [acks]
      exact List.nodup_append.mpr ⟨kept.told.once, List.pairwise_singleton _ index, fun _ one _ other same =>
        reads.untold (List.mem_singleton.mp other ▸ same ▸ one)⟩
    · intro place acknowledged
      rw [acks] at acknowledged
      rcases List.mem_append.mp acknowledged with before | now
      · obtain ⟨old, found, spool, whole, got⟩ := kept.told.confirmed place before
        obtain ⟨new, standing, still, sent, hint, -⟩ := after found
        have total : new.bytesTotal = old.bytesTotal := congrArg FileHint.sz hint
        exact ⟨new, standing, still.trans spool, by rw [sent, total, whole],
          List.mem_append_left _ (hint ▸ got)⟩
      · rw [List.mem_singleton.mp now]
        obtain ⟨new, standing, still, sent, hint, -⟩ := after there
        have total : new.bytesTotal = finf.bytesTotal := congrArg FileHint.sz hint
        have whole := reads.left
        rw [read, Nat.add_zero] at whole
        exact ⟨new, standing, still.trans network, by rw [sent, total, whole],
          List.mem_append_right _ (hint ▸ List.mem_singleton_self _)⟩
    · intro first second before one other
      rw [acks]
      exact List.mem_append_left _
        (kept.told.ordered first second before ((spools first).mp one) ((spools second).mp other))
  · intro place acknowledged new standing waiting
    rw [acks] at acknowledged
    obtain ⟨old, found, rfl | ⟨rfl, rfl⟩⟩ := modify_some standing
    · rcases List.mem_append.mp acknowledged with before | now
      · exact kept.ended place before new found waiting
      · obtain rfl := List.mem_singleton.mp now
        have changed := modify_there place (fun finf : Finfo => { finf with status := .success, fp := none }) found
        rw [if_pos rfl, standing] at changed
        rw [Option.some.inj changed] at waiting
        cases waiting
    · cases waiting
  · intro place sending one later further
    rw [spools] at one ⊢
    exact kept.sends place sending one later further
  · constructor
    · intro _ place one
      rw [spools] at one
      rw [acks]
      rcases Nat.lt_trichotomy place index with before | same | beyond
      · exact List.mem_append_left _
          (kept.told.ordered place index before one ⟨finf, there, network⟩)
      · exact List.mem_append_right _ (List.mem_singleton.mpr same)
      · exact absurd one (reads.last place beyond)
    · intro other
      exact absurd other quiet

/-! ## Reading -/

/-- A part of a file that `netspool_read` yields. -/
theorem read_part {received : Option Bytes} {buflen : Nat} {spool later : Netspool} {bytes : Bytes}
    (positive : 0 < buflen) (part : spool.read received buflen = (later, some bytes)) :
    later.state = spool.state ∧ later.filename = spool.filename ∧
      later.length + bytes.length = spool.length ∧ (bytes = [] → later.length = 0) := by
  unfold Netspool.read at part
  split at part
  · rename_i done
    cases part
    exact ⟨rfl, rfl, Nat.add_zero _, fun _ => done⟩
  · rename_i more
    split at part
    · cases part
    · cases part
    · rename_i got some_
      cases part
      have short : (got.take (min buflen spool.length)).length ≤ spool.length := by
        rw [List.length_take]
        omega
      refine ⟨rfl, rfl, Nat.sub_add_cancel short, fun empty => ?_⟩
      rcases List.take_eq_nil_iff.mp empty with zero | nothing
      · omega
      · exact (some_ nothing).elim

/-- The file being sent is the one that the spool reads, if it is of the spool. -/
theorem SpoolFiles.current (kept : SpoolFiles conf gots pi) (reading : pi.netspool.state = .recvfile)
    {index : Nat} {finf : Finfo} (sending : pi.send = some index) (there : pi.sentfiles[index]? = some finf)
    (network : finf.netspool = true) : SpoolReads conf pi index finf := by
  obtain ⟨place, other, reads⟩ := kept.stands.reads reading
  obtain rfl : place = index := by
    rcases Nat.lt_trichotomy place index with before | same | beyond
    · exact absurd ⟨finf, there, network⟩ (reads.last index before)
    · exact same
    · exact absurd ⟨other, reads.there, reads.spool⟩
        (kept.sends index sending ⟨finf, there, network⟩ place beyond)
  obtain rfl : other = finf := Option.some.inj (reads.there.symm.trans there)
  exact reads

/-- The spool goes on reading the file that is being sent. -/
theorem SpoolFiles.read_on (kept : SpoolFiles conf gots pi) (reading : pi.netspool.state = .recvfile)
    {index : Nat} {finf : Finfo} (sending : pi.send = some index) (there : pi.sentfiles[index]? = some finf)
    (network : finf.netspool = true) (change : Finfo → Finfo) {spool : Netspool}
    (same : ∀ old, (change old).netspool = old.netspool ∧ (change old).action = old.action ∧
      (change old).hint = old.hint ∧ (change old).fp = old.fp)
    (still : spool.state = .recvfile ∧ spool.filename = pi.netspool.filename)
    (left : (change finf).bytesSent + spool.length = finf.bytesTotal)
    (ended : (change finf).status = .waitack → spool.length = 0) :
    SpoolFiles conf gots { pi with sentfiles := pi.sentfiles.modify index change, netspool := spool } := by
  have reads := kept.current reading sending there network
  have spools : ∀ place, IsSpool (pi.sentfiles.modify index change) place ↔ IsSpool pi.sentfiles place :=
    isSpool_modify fun old _ => (same old).1
  have others : ∀ {place : Nat} {other : Finfo}, place ∈ spoolAcks pi.effects → pi.sentfiles[place]? = some other →
      (pi.sentfiles.modify index change)[place]? = some other := by
    intro place other acknowledged found
    have apart : index ≠ place := fun here => reads.untold (here ▸ acknowledged)
    have changed := modify_there index change found
    rwa [if_neg apart] at changed
  constructor
  · exact kept.ordinary
  · intro other member spool
    rcases mem_modify member with same | ⟨old, found, rfl⟩
    · exact kept.spools other same spool
    · obtain ⟨netspool, action, -, fp⟩ := same old
      have facts := kept.spools old (List.mem_of_getElem? found) (netspool.symm.trans spool)
      exact ⟨fp.trans facts.1, action.trans facts.2⟩
  · intro other member plain
    rcases mem_modify member with same | ⟨old, found, rfl⟩
    · exact kept.locals other same plain
    · obtain ⟨netspool, action, -, -⟩ := same old
      rw [action]
      exact kept.locals old (List.mem_of_getElem? found) (netspool.symm.trans plain)
  · constructor
    · exact kept.told.once
    · intro place acknowledged
      obtain ⟨old, found, facts⟩ := kept.told.confirmed place acknowledged
      exact ⟨old, others acknowledged found, facts⟩
    · intro first second before one other
      exact kept.told.ordered first second before ((spools first).mp one) ((spools second).mp other)
  · intro place acknowledged new standing
    obtain ⟨old, found, -⟩ := kept.told.confirmed place acknowledged
    obtain rfl : old = new := Option.some.inj ((others acknowledged found).symm.trans standing)
    exact kept.ended place acknowledged old found
  · intro place going one later further
    rw [spools] at one ⊢
    exact kept.sends place going one later further
  · constructor
    · intro quiet
      exact absurd still.1 quiet
    · intro _
      obtain ⟨netspool, -, hint, -⟩ := same finf
      have changed := modify_there index change there
      rw [if_pos rfl] at changed
      refine ⟨index, change finf, changed, netspool.trans network, reads.untold, ?_, ?_, ended, ?_⟩
      · intro later further
        rw [spools]
        exact reads.last later further
      · exact left.trans (congrArg FileHint.sz hint).symm
      · rw [still.2, ← reads.named]
        exact congrArg FileHint.fn hint

/-- What is known of the files that the server was told of does not depend on a status. -/
theorem SpoolTold.change (told : SpoolTold gots pi) (change : Finfo → Finfo)
    (same : ∀ old, (change old).netspool = old.netspool ∧ (change old).bytesSent = old.bytesSent ∧
      (change old).hint = old.hint) : SpoolTold gots (pi.changeSend change) := by
  unfold Protinfo.changeSend
  cases pi.send with
  | none => exact told
  | some index =>
    have spools : ∀ place, IsSpool (pi.sentfiles.modify index change) place ↔ IsSpool pi.sentfiles place :=
      isSpool_modify fun old _ => (same old).1
    constructor
    · exact told.once
    · intro place acknowledged
      obtain ⟨old, found, network, whole, got⟩ := told.confirmed place acknowledged
      refine ⟨_, modify_there index change found, ?_⟩
      split
      · obtain ⟨netspool, sent, hint⟩ := same old
        have total : (change old).bytesTotal = old.bytesTotal := congrArg FileHint.sz hint
        exact ⟨netspool.trans network, by rw [sent, total, whole], hint ▸ got⟩
      · exact ⟨network, whole, got⟩
    · intro first second before one other
      exact told.ordered first second before ((spools first).mp one) ((spools second).mp other)

/-- What `p_tx_readfile` and its caller leave. -/
def ReadKeeps (conf : TransferConf) (gots : List FileHint) (after : Protinfo) : TxRead → Prop
  | .data [] => SpoolFiles conf gots (after.changeSend fun finf => { finf with status := .waitack })
  | .data bytes =>
    SpoolFiles conf gots (after.changeSend fun finf => { finf with bytesSent := finf.bytesSent + bytes.length })
  | .error | .skip => SpoolTold gots after

/-- Two changes of the current file are one. -/
theorem changeSend_changeSend {index : Nat} (sending : pi.send = some index) (first second : Finfo → Finfo)
    (spool : Netspool) :
    ({ pi with netspool := spool }.changeSend first).changeSend second =
      { pi with sentfiles := pi.sentfiles.modify index (second ∘ first), netspool := spool } := by
  simp only [Protinfo.changeSend, sending, Protinfo.changeSent, List.modify_modify_eq]

/-- Reading a spool file keeps it. -/
theorem SpoolFiles.read_spool (kept : SpoolFiles conf gots pi) (answers : TxReadAnswers) {buflen : Nat}
    (positive : 0 < buflen) {finf : Finfo} (current : pi.sending = some finf) (network : finf.netspool = true) :
    ReadKeeps conf gots (readNetspool answers buflen pi).1 (readNetspool answers buflen pi).2 := by
  obtain ⟨index, sending, there⟩ := Option.bind_eq_some_iff.mp current
  unfold readNetspool
  split
  · refine kept.told.change _ fun _ => ?_
    exact ⟨rfl, rfl, rfl⟩
  · rename_i reading
    have reading : pi.netspool.state = .recvfile := by simpa using reading
    have reads := kept.current reading sending there network
    cases part : pi.netspool.read answers.received buflen with
    | mk spool bytes =>
      cases bytes with
      | none =>
        have told : SpoolTold gots { pi with netspool := spool } :=
          ⟨kept.told.once, kept.told.confirmed, kept.told.ordered⟩
        refine (told.change _ fun _ => ?_).change _ fun _ => ?_
        · exact ⟨rfl, rfl, rfl⟩
        · exact ⟨rfl, rfl, rfl⟩
      | some bytes =>
        obtain ⟨state, filename, fewer, ended⟩ := read_part positive part
        have left := reads.left
        cases bytes with
        | nil =>
          dsimp only [ReadKeeps]
          rw [changeSend_changeSend sending]
          refine kept.read_on reading sending there network _ (fun _ => ?_) ⟨state.trans reading, filename⟩ ?_ ?_
          · exact ⟨rfl, rfl, rfl, rfl⟩
          · rw [← left, ← fewer]
            rfl
          · exact fun _ => ended rfl
        | cons first rest =>
          dsimp only [ReadKeeps]
          rw [changeSend_changeSend sending]
          refine kept.read_on reading sending there network _ (fun _ => ?_) ⟨state.trans reading, filename⟩ ?_ ?_
          · exact ⟨rfl, rfl, rfl, rfl⟩
          · rw [← left, ← fewer]
            dsimp only [Function.comp_apply]
            omega
          · intro waits
            have before := reads.ended waits
            omega

/-- Reading a local file leaves what the file is. -/
theorem readLocal_same (answers : TxReadAnswers) (buflen : Nat) (stream : Stream) (finf : Finfo) :
    (readLocal answers buflen stream finf).1.netspool = finf.netspool ∧
      (readLocal answers buflen stream finf).1.action = finf.action ∧
        (readLocal answers buflen stream finf).1.hint = finf.hint := by
  unfold readLocal
  dsimp only
  repeat' split
  all_goals exact ⟨rfl, rfl, rfl⟩

/-- `p_tx_readfile` keeps it. -/
theorem SpoolFiles.read_file (kept : SpoolFiles conf gots pi) (answers : TxReadAnswers) {buflen : Nat}
    (positive : 0 < buflen) {result : TxRead} (read : pTxReadfile answers buflen pi = some (after, result)) :
    ReadKeeps conf gots after result := by
  unfold pTxReadfile at read
  cases current : pi.sending with
  | none =>
    rw [current] at read
    cases read
  | some finf =>
    rw [current] at read
    dsimp only at read
    split at read
    · rename_i network
      have keeps := kept.read_spool answers positive current network
      rw [Option.some.inj read] at keeps
      exact keeps
    · rename_i plain
      have plain : finf.netspool = false := by simpa using plain
      split at read
      · cases read
        exact kept.told
      · rename_i stream _
        obtain ⟨netspool, action, hint⟩ := readLocal_same answers buflen stream finf
        have own : ∀ old, pi.sending = some old → finf = old := by
          intro old found
          exact Option.some.inj (current.symm.trans found)
        have changed : SpoolFiles conf gots
            (pi.changeSend fun _ => (readLocal answers buflen stream finf).1) := by
          apply kept.change_local
          · rintro old found
            rw [← own old found]
            exact plain
          · intro old found
            rw [← own old found]
            exact ⟨netspool, action, hint⟩
        have still : ∀ other, (pi.changeSend fun _ =>
            (readLocal answers buflen stream finf).1).sending = some other → other.netspool = false := by
          intro other found
          rw [changeSend_sending] at found
          obtain ⟨old, _, rfl⟩ := Option.map_eq_some_iff.mp found
          exact netspool.trans plain
        cases read
        cases (readLocal answers buflen stream finf).2 with
        | data bytes =>
          cases bytes with
          | nil => exact changed.change_local _ still fun _ _ => ⟨rfl, rfl, rfl⟩
          | cons first rest => exact changed.change_local _ still fun _ _ => ⟨rfl, rfl, rfl⟩
        | error => exact changed.told
        | skip => exact changed.told

end SpoolFiles

end Binkleyforce
