import Mathlib.Data.List.Count
import Binkleyforce.Util.Text

/-!
# The queue of files to send

The files for a remote, in the order the outbound scan found them, and how the
next one is chosen. Netmail goes first, then arcmail, other files and file
requests; among netmail and among arcmail the higher flavour. Answers to file
requests of the remote wait in a second list, and the network spool comes last.
-/

namespace Binkleyforce

/-- Netmail, as a bit of a file's type. -/
def typeNetmail : Nat := 0x001

/-- Compressed mail, as a bit of a file's type. -/
def typeArcmail : Nat := 0x002

/-- A file request, as a bit of a file's type. -/
def typeRequest : Nat := 0x040

/-- The file's type has the bit. -/
def hasType (type bit : Nat) : Bool := type &&& bit != 0

/-- The flavour of files to be held for pickup. -/
def flavorHold : Nat := 0x001

/-- What is to become of a file in the queue. -/
inductive FileStatus where
  | willsend
  | skip
  | sending
  | sent
  deriving DecidableEq, Repr

/-- What is to be done with a source file once it is sent. -/
inductive FileAction where
  | nothing
  | unlink
  | forceUnlink
  | truncate
  | acknowledge
  deriving DecidableEq, Repr

/-- `s_filelist`: a file to send. `flodsc` is its place in a flow file, if it
comes from one. -/
structure FileEntry where
  fname : Bytes
  size : Nat
  type : Nat
  flavor : Nat
  action : FileAction
  status : FileStatus
  flodsc : Int
  deriving DecidableEq, Repr

/-- The candidate goes before the best file so far. -/
def prefers (ptrl best : FileEntry) : Bool :=
  if hasType ptrl.type typeNetmail then
    if hasType best.type typeNetmail then decide (ptrl.flavor > best.flavor) else true
  else if hasType ptrl.type typeArcmail then
    (hasType best.type typeArcmail && decide (ptrl.flavor > best.flavor)) ||
      (!hasType best.type typeNetmail && !hasType best.type typeArcmail)
  else !hasType ptrl.type typeRequest && hasType best.type typeRequest

/-- The first loop of `prot_get_next_file`, over the rest of the local queue
from a position on: the best file with its position. Under `reqs_only` it is the
first file request. -/
def pickLocal (reqsOnly : Bool) : List FileEntry → Nat → Option (Nat × FileEntry) →
    Option (Nat × FileEntry)
  | [], _, best => best
  | ptrl :: rest, position, best =>
    if ptrl.status = .willsend then
      if reqsOnly then
        if hasType ptrl.type typeRequest then some (position, ptrl)
        else pickLocal reqsOnly rest (position + 1) best
      else
        match best with
        | none => pickLocal reqsOnly rest (position + 1) (some (position, ptrl))
        | some (_, leader) =>
          pickLocal reqsOnly rest (position + 1)
            (if prefers ptrl leader then some (position, ptrl) else best)
    else pickLocal reqsOnly rest (position + 1) best

/-- Where a file to send was found. -/
inductive Source where
  | queue (position : Nat)
  | filelist (position : Nat)
  | network
  deriving DecidableEq, Repr

/-- The lists `prot_get_next_file` searches. -/
structure FileLists where
  queue : List FileEntry
  filelist : List FileEntry
  reqsOnly : Bool
  deriving DecidableEq, Repr

/-- `prot_get_next_file`: a file of the queue, else the first of the answers,
else one of the network spool if that has one. -/
def protGetNextFile (lists : FileLists) (network : Bool) : Option Source :=
  match pickLocal lists.reqsOnly lists.queue 0 none with
  | some (position, _) => some (.queue position)
  | none =>
    if lists.filelist.findIdx (·.status = .willsend) < lists.filelist.length then
      some (.filelist (lists.filelist.findIdx (·.status = .willsend)))
    else if network then some .network
    else none

/-- Mark a file as being sent. -/
def FileEntry.begin (entry : FileEntry) : FileEntry := { entry with status := .sending }

namespace FileLists

/-- The file found at a source. The network spool has no entry. -/
def entry (lists : FileLists) : Source → Option FileEntry
  | .queue position => lists.queue[position]?
  | .filelist position => lists.filelist[position]?
  | .network => none

/-- Mark the file at a source. -/
def begin (lists : FileLists) : Source → FileLists
  | .queue position => { lists with queue := lists.queue.modify position FileEntry.begin }
  | .filelist position => { lists with filelist := lists.filelist.modify position FileEntry.begin }
  | .network => lists

/-- How many files are still to be sent. -/
def waiting (lists : FileLists) : Nat :=
  lists.queue.countP (·.status = .willsend) + lists.filelist.countP (·.status = .willsend)

end FileLists

/-- The loop of `p_tx_fopen`: take files until one can be opened. `accessible`
says for each file whether `stat` and opening succeed when it is tried. The fuel
counts the files that may still be tried. -/
def openNext (accessible : Source → Bool) (network : Bool) : Nat → FileLists →
    FileLists × Option Source
  | 0, lists => (lists, none)
  | fuel + 1, lists =>
    match protGetNextFile lists network with
    | none => (lists, none)
    | some .network => (lists, some .network)
    | some source =>
      if accessible source then (lists.begin source, some source)
      else openNext accessible network fuel (lists.begin source)

/-- The part of `p_tx_fopen` that finds a file: nothing while all is held. -/
def pTxFopenNext (holdall : Bool) (accessible : Source → Bool) (network : Bool)
    (lists : FileLists) : FileLists × Option Source :=
  if holdall then (lists, none) else openNext accessible network (lists.waiting + 1) lists

section Choice

variable {reqsOnly : Bool} {network : Bool}

/-- The local queue yields the best file so far or a waiting one of the rest. -/
theorem pickLocal_some (queue : List FileEntry) (position : Nat) (best : Option (Nat × FileEntry))
    (index : Nat) (entry : FileEntry)
    (picked : pickLocal reqsOnly queue position best = some (index, entry)) :
    best = some (index, entry) ∨
      ∃ offset, index = position + offset ∧ queue[offset]? = some entry ∧
        entry.status = .willsend := by
  induction queue generalizing position best with
  | nil => exact .inl picked
  | cons ptrl rest inductionHypothesis =>
    have later : ∀ other, pickLocal reqsOnly rest (position + 1) other = some (index, entry) →
        other = some (index, entry) ∨
          ∃ offset, index = position + offset ∧ (ptrl :: rest)[offset]? = some entry ∧
            entry.status = .willsend := by
      intro other found
      refine (inductionHypothesis _ _ found).imp_right ?_
      rintro ⟨offset, same, there, waiting⟩
      exact ⟨offset + 1, by omega, there, waiting⟩
    have here : ptrl.status = .willsend → some (position, ptrl) = some (index, entry) →
        ∃ offset, index = position + offset ∧ (ptrl :: rest)[offset]? = some entry ∧
          entry.status = .willsend := by
      rintro waiting ⟨⟩
      exact ⟨0, rfl, rfl, waiting⟩
    simp only [pickLocal] at picked
    split at picked
    · rename_i waiting
      split at picked
      · split at picked
        · exact .inr (here waiting picked)
        · exact later _ picked
      · split at picked
        · exact .inr ((later _ picked).elim (here waiting) id)
        · split at picked
          · exact .inr ((later _ picked).elim (here waiting) id)
          · exact later _ picked
    · exact later _ picked

/-- Without `reqs_only` the local queue yields a file while one waits. -/
theorem pickLocal_waiting (queue : List FileEntry) (position : Nat)
    (best : Option (Nat × FileEntry))
    (waits : best ≠ none ∨ ∃ entry ∈ queue, entry.status = .willsend) :
    pickLocal false queue position best ≠ none := by
  induction queue generalizing position best with
  | nil => simpa [pickLocal] using waits
  | cons ptrl rest inductionHypothesis =>
    have found := fun leader : Nat × FileEntry =>
      inductionHypothesis (position + 1) (some leader) (.inl (by simp))
    simp only [pickLocal, Bool.false_eq_true, if_false]
    split
    · split
      · exact found _
      · split <;> exact found _
    · rename_i idle
      refine inductionHypothesis (position + 1) best (waits.imp_right ?_)
      rintro ⟨entry, member, waiting⟩
      rcases List.mem_cons.mp member with rfl | later
      · exact absurd waiting idle
      · exact ⟨entry, later, waiting⟩

/-- A file chosen from the lists waits there. -/
theorem protGetNextFile_some (lists : FileLists) (source : Source)
    (chosen : protGetNextFile lists network = some source) (local_source : source ≠ .network) :
    ∃ entry, lists.entry source = some entry ∧ entry.status = .willsend := by
  simp only [protGetNextFile] at chosen
  split at chosen
  · rename_i position entry picked
    obtain rfl := Option.some.inj chosen
    rcases pickLocal_some _ _ _ _ _ picked with impossible | ⟨offset, same, there, waiting⟩
    · cases impossible
    · obtain rfl : position = offset := by omega
      exact ⟨entry, there, waiting⟩
  · split at chosen
    · rename_i found
      obtain rfl := Option.some.inj chosen
      refine ⟨_, List.getElem?_eq_getElem found, ?_⟩
      simpa using @List.findIdx_getElem _ _ _ found
    · split at chosen
      · exact absurd (Option.some.inj chosen).symm local_source
      · cases chosen

end Choice

/-- Every file that still waits after was there before, at the same place. -/
def Narrows (before after : List FileEntry) : Prop :=
  ∀ (position : Nat) (entry : FileEntry), after[position]? = some entry →
    entry.status = .willsend → before[position]? = some entry

theorem Narrows.refl (queue : List FileEntry) : Narrows queue queue := fun _ _ there _ => there

theorem Narrows.trans {before middle after : List FileEntry} (first : Narrows before middle)
    (second : Narrows middle after) : Narrows before after :=
  fun position entry there waiting =>
    first position entry (second position entry there waiting) waiting

/-- A file that was begun no longer waits. -/
theorem narrows_begin (queue : List FileEntry) (position : Nat) :
    Narrows queue (queue.modify position FileEntry.begin) := by
  intro index entry there waiting
  rw [List.getElem?_modify] at there
  split at there
  · obtain ⟨original, _, rfl⟩ := Option.map_eq_some_iff.mp there
    cases waiting
  · simpa using there

/-- Beginning a waiting file leaves one fewer of them. -/
theorem countP_begin (queue : List FileEntry) (position : Nat) (entry : FileEntry)
    (there : queue[position]? = some entry) (waiting : entry.status = .willsend) :
    (queue.modify position FileEntry.begin).countP (·.status = .willsend) <
      queue.countP (·.status = .willsend) := by
  induction queue generalizing position with
  | nil => simp at there
  | cons first rest inductionHypothesis =>
    cases position with
    | zero =>
      obtain rfl : first = entry := by simpa using there
      simp [FileEntry.begin, waiting]
    | succ position =>
      have fewer := inductionHypothesis position there
      simp only [List.modify_succ_cons, List.countP_cons]
      omega

section Opening

variable {lists : FileLists} {network : Bool}

/-- Beginning a waiting file of the lists leaves one fewer. -/
theorem waiting_begin (source : Source) (entry : FileEntry)
    (there : lists.entry source = some entry) (waiting : entry.status = .willsend) :
    (lists.begin source).waiting < lists.waiting := by
  cases source with
  | queue position =>
    have fewer := countP_begin lists.queue position entry there waiting
    simp only [FileLists.waiting, FileLists.begin]
    omega
  | filelist position =>
    have fewer := countP_begin lists.filelist position entry there waiting
    simp only [FileLists.waiting, FileLists.begin]
    omega
  | network => cases there

/-- Files waiting in the lists after waited there before. -/
structure FileLists.Narrows (before after : FileLists) : Prop where
  queue : Binkleyforce.Narrows before.queue after.queue
  filelist : Binkleyforce.Narrows before.filelist after.filelist
  reqsOnly : after.reqsOnly = before.reqsOnly

theorem FileLists.Narrows.refl (lists : FileLists) : lists.Narrows lists :=
  ⟨.refl _, .refl _, rfl⟩

theorem FileLists.Narrows.trans {before middle after : FileLists} (first : before.Narrows middle)
    (second : middle.Narrows after) : before.Narrows after :=
  ⟨first.queue.trans second.queue, first.filelist.trans second.filelist,
    second.reqsOnly.trans first.reqsOnly⟩

/-- A file waiting at a source after waited there before. -/
theorem FileLists.Narrows.entry {before after : FileLists} (narrows : before.Narrows after)
    (source : Source) (entry : FileEntry) (there : after.entry source = some entry)
    (waiting : entry.status = .willsend) : before.entry source = some entry := by
  cases source with
  | queue position => exact narrows.queue position entry there waiting
  | filelist position => exact narrows.filelist position entry there waiting
  | network => exact there

theorem narrows_begin_lists (source : Source) : lists.Narrows (lists.begin source) := by
  cases source with
  | queue position => exact ⟨narrows_begin lists.queue position, .refl _, rfl⟩
  | filelist position => exact ⟨.refl _, narrows_begin lists.filelist position, rfl⟩
  | network => exact .refl _

/-- Looking for a file to open only begins files, and opens one that waited. -/
theorem openNext_spec (accessible : Source → Bool) (fuel : Nat) :
    let result := openNext accessible network fuel lists
    lists.Narrows result.1 ∧ ∀ source, result.2 = some source → source ≠ .network →
      ∃ entry, lists.entry source = some entry ∧ entry.status = .willsend := by
  induction fuel generalizing lists with
  | zero => exact ⟨.refl lists, fun _ impossible => by cases impossible⟩
  | succ fuel inductionHypothesis =>
    simp only [openNext]
    split
    · exact ⟨.refl lists, fun _ impossible => by cases impossible⟩
    · rename_i chosen
      refine ⟨.refl lists, fun source opened local_source => ?_⟩
      exact absurd (Option.some.inj opened).symm local_source
    · rename_i source distinct chosen
      split
      · refine ⟨narrows_begin_lists source, fun other opened local_source => ?_⟩
        obtain rfl := Option.some.inj opened
        exact protGetNextFile_some lists source chosen local_source
      · obtain ⟨narrows, waits⟩ := @inductionHypothesis (lists.begin source)
        have begun : lists.Narrows (lists.begin source) := narrows_begin_lists source
        refine ⟨begun.trans narrows, fun other opened local_source => ?_⟩
        obtain ⟨entry, there, waiting⟩ := waits other opened local_source
        exact ⟨entry, begun.entry other entry there waiting, waiting⟩

/-- A waiting file keeps waiting while another one is begun. -/
theorem begin_apart (source : Source) (position : Nat) (apart : source ≠ .queue position) :
    (lists.begin source).queue[position]? = lists.queue[position]? := by
  cases source with
  | queue other =>
    have different : other ≠ position := fun same => apart (by rw [same])
    simp [FileLists.begin, List.getElem?_modify, different]
  | filelist other => rfl
  | network => rfl

/-- The first file that can be opened is reached, with fuel for all that wait. -/
theorem openNext_reaches (fuel position : Nat) (entry : FileEntry)
    (all : lists.reqsOnly = false) (there : lists.queue[position]? = some entry)
    (waiting : entry.status = .willsend) (enough : lists.waiting < fuel) :
    (openNext (· = .queue position) network fuel lists).2 = some (.queue position) := by
  induction fuel generalizing lists with
  | zero => omega
  | succ fuel inductionHypothesis =>
    have picks : pickLocal false lists.queue 0 none ≠ none :=
      pickLocal_waiting lists.queue 0 none
        (.inr ⟨entry, List.mem_of_getElem? there, waiting⟩)
    obtain ⟨⟨other, picked⟩, found⟩ := Option.ne_none_iff_exists'.mp picks
    have chosen : protGetNextFile lists network = some (.queue other) := by
      simp only [protGetNextFile, all, found]
    simp only [openNext, chosen]
    by_cases same : other = position
    · simp [same]
    · have apart : Source.queue other ≠ .queue position := by simpa using same
      obtain ⟨next, here, waits⟩ := protGetNextFile_some lists (.queue other) chosen (by simp)
      have fewer := waiting_begin (.queue other) next here waits
      simp only [apart, decide_false, Bool.false_eq_true, if_false]
      exact inductionHypothesis all ((begin_apart _ position apart).trans there) (by omega)

end Opening

end Binkleyforce
