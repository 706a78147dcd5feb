import Binkleyforce.Library.Selections
import Binkleyforce.Transfer.Queue

/-!
# The order of sending

The files `p_tx_fopen` takes, one call after another, and how they are ordered. Netmail and arcmail
go by their flavour. Other files and file requests go as they stand in the queue, and the answers to
requests of the remote after all of them.
-/

namespace Binkleyforce

open Library

/-! ## Classes -/

/-- The classes of files in the order they are sent: netmail, arcmail, other files, file requests. -/
def sendClass (type : Nat) : Nat :=
  if hasType type typeNetmail then 0
  else if hasType type typeArcmail then 1
  else if hasType type typeRequest then 3
  else 2

/-- A file is of one class: no type has two of the bits. -/
def OneClass (type : Nat) : Prop :=
  ¬ (hasType type typeNetmail ∧ hasType type typeArcmail) ∧
    ¬ (hasType type typeNetmail ∧ hasType type typeRequest) ∧
    ¬ (hasType type typeArcmail ∧ hasType type typeRequest)

/-- A file may be sent before another: its class comes first, or its flavour is not lower. -/
def SentBefore (a b : FileEntry) : Prop :=
  sendClass a.type < sendClass b.type ∨
    sendClass a.type = sendClass b.type ∧ b.flavor ≤ a.flavor

instance (a b : FileEntry) : Decidable (SentBefore a b) := inferInstanceAs (Decidable (_ ∨ _))

/-- A file at a source can be sent: it waits, and where only requests are sent it is one or an answer. -/
def FileLists.Sendable (lists : FileLists) (file : Source × FileEntry) : Prop :=
  lists.entry file.1 = some file.2 ∧ file.2.status = .willsend ∧
    ∀ position, file.1 = .queue position → lists.reqsOnly = true → hasType file.2.type typeRequest

/-! ## One pick -/

/-- A file of the queue is picked rather than another. -/
def Wins (first second : Nat × FileEntry) : Prop :=
  sendClass first.2.type < sendClass second.2.type ∨
    sendClass first.2.type = sendClass second.2.type ∧
      if sendClass first.2.type ≤ 1 then second.2.flavor ≤ first.2.flavor else first.1 ≤ second.1

theorem Wins.refl (file : Nat × FileEntry) : Wins file file := by
  unfold Wins
  refine .inr ⟨rfl, ?_⟩
  split
  · exact Nat.le_refl _
  · exact Nat.le_refl _

theorem Wins.trans {first second third : Nat × FileEntry} (one : Wins first second)
    (two : Wins second third) : Wins first third := by
  unfold Wins at *
  rcases one with less | ⟨same, one⟩
  · rcases two with less' | ⟨same', -⟩
    · exact .inl (Nat.lt_trans less less')
    · exact .inl (same' ▸ less)
  · rcases two with less' | ⟨same', two⟩
    · exact .inl (same ▸ less')
    · refine .inr ⟨same.trans same', ?_⟩
      rw [← same] at two
      split
      · rename_i flavored
        rw [if_pos flavored] at one two
        exact Nat.le_trans two one
      · rename_i listed
        rw [if_neg listed] at one two
        exact Nat.le_trans one two

/-- A file is preferred to an earlier one exactly where its class comes first, or it is mail of a higher
flavour. -/
theorem prefers_iff {ptrl best : FileEntry} (one : OneClass ptrl.type) (other : OneClass best.type) :
    prefers ptrl best = true ↔ sendClass ptrl.type < sendClass best.type ∨
      sendClass ptrl.type = sendClass best.type ∧ sendClass ptrl.type ≤ 1 ∧
        best.flavor < ptrl.flavor := by
  unfold prefers sendClass
  unfold OneClass at one other
  generalize hasType ptrl.type typeNetmail = netmail at *
  generalize hasType ptrl.type typeArcmail = arcmail at *
  generalize hasType ptrl.type typeRequest = request at *
  generalize hasType best.type typeNetmail = netmail' at *
  generalize hasType best.type typeArcmail = arcmail' at *
  generalize hasType best.type typeRequest = request' at *
  cases netmail <;> cases arcmail <;> cases request <;> cases netmail' <;> cases arcmail' <;>
    cases request' <;> simp_all

/-- The preferred one of two files wins. -/
theorem prefers_wins {first second : Nat × FileEntry} (one : OneClass first.2.type)
    (other : OneClass second.2.type) (earlier : first.1 ≤ second.1) :
    if prefers second.2 first.2 then Wins second first else Wins first second := by
  have preferred := prefers_iff other one
  unfold Wins
  split
  · rename_i yes
    rcases preferred.mp yes with less | ⟨same, mail, higher⟩
    · exact .inl less
    · refine .inr ⟨same, ?_⟩
      rw [if_pos mail]
      exact Nat.le_of_lt higher
  · rename_i no
    rw [preferred, not_or] at no
    rcases Nat.lt_or_eq_of_le (Nat.le_of_not_lt no.1) with less | same
    · exact .inl less
    · refine .inr ⟨same, ?_⟩
      split
      · rename_i mail
        by_contra higher
        exact no.2 ⟨same.symm, same ▸ mail, Nat.lt_of_not_le higher⟩
      · exact earlier

/-- A file request is the last of the classes. -/
theorem sendClass_request {type : Nat} (one : OneClass type) (request : hasType type typeRequest) :
    sendClass type = 3 := by
  have notNetmail : ¬ hasType type typeNetmail := fun netmail => one.2.1 ⟨netmail, request⟩
  have notArcmail : ¬ hasType type typeArcmail := fun arcmail => one.2.2 ⟨arcmail, request⟩
  unfold sendClass
  rw [if_neg notNetmail, if_neg notArcmail, if_pos request]

/-- The loop keeps a file that wins over all that were seen. -/
theorem pickLocal_wins {reqsOnly : Bool} {queue : List FileEntry} (position : Nat)
    (best : Option (Nat × FileEntry))
    (one : ∀ entry ∈ queue, entry.status = .willsend → (reqsOnly = true → hasType entry.type typeRequest) →
      OneClass entry.type)
    (leading : ∀ leader ∈ best, leader.1 < position ∧ OneClass leader.2.type ∧ reqsOnly = false)
    {picked : Nat × FileEntry} (result : pickLocal reqsOnly queue position best = some picked) :
    (∀ leader ∈ best, Wins picked leader) ∧
      ∀ offset entry, queue[offset]? = some entry → entry.status = .willsend →
        (reqsOnly = true → hasType entry.type typeRequest) → Wins picked (position + offset, entry) := by
  induction queue generalizing position best with
  | nil =>
    unfold pickLocal at result
    refine ⟨?_, by simp⟩
    rw [result]
    rintro leader ⟨⟩
    exact .refl picked
  | cons ptrl rest inductionHypothesis =>
    rw [List.forall_mem_cons] at one
    -- What the rest of the loop gives for the files behind this one.
    have later (next : Option (Nat × FileEntry))
        (leads : ∀ leader ∈ next, leader.1 < position + 1 ∧ OneClass leader.2.type ∧ reqsOnly = false)
        (goes : pickLocal reqsOnly rest (position + 1) next = some picked)
        (first : ptrl.status = .willsend → (reqsOnly = true → hasType ptrl.type typeRequest) →
          (∀ leader ∈ next, Wins picked leader) → Wins picked (position, ptrl)) :
        (∀ leader ∈ next, Wins picked leader) ∧
          ∀ offset entry, (ptrl :: rest)[offset]? = some entry → entry.status = .willsend →
            (reqsOnly = true → hasType entry.type typeRequest) →
              Wins picked (position + offset, entry) := by
      obtain ⟨leaders, others⟩ := inductionHypothesis (position + 1) next one.2 leads goes
      refine ⟨leaders, ?_⟩
      intro offset entry there waits request
      cases offset with
      | zero =>
        cases there
        exact first waits request leaders
      | succ offset =>
        rw [Nat.add_comm offset, ← Nat.add_assoc]
        exact others offset entry there waits request
    have grown : ∀ leader ∈ best, leader.1 < position + 1 ∧ OneClass leader.2.type ∧ reqsOnly = false :=
      fun leader member => ⟨Nat.lt_succ_of_lt (leading leader member).1, (leading leader member).2⟩
    unfold pickLocal at result
    split at result
    · rename_i waits
      split at result
      · rename_i only
        split at result
        · rename_i request
          cases result
          constructor
          · intro leader member
            rw [(leading leader member).2.2] at only
            cases only
          · intro offset entry there waits' request'
            have own := sendClass_request (one.1 waits fun _ => request) request
            have class_ : sendClass entry.type = 3 := by
              apply sendClass_request _ (request' only)
              rcases List.mem_cons.mp (List.mem_of_getElem? there) with rfl | member
              · exact one.1 waits' request'
              · exact one.2 entry member waits' request'
            unfold Wins
            dsimp only
            rw [own, class_]
            exact .inr ⟨rfl, by simp⟩
        · rename_i other
          exact later best grown result fun _ request => absurd (request only) other
      · rename_i all
        have mode : reqsOnly = false := by simpa using all
        have single : OneClass ptrl.type := one.1 waits fun only => absurd only all
        split at result
        · obtain ⟨leaders, others⟩ := later (some (position, ptrl))
            (by rintro _ ⟨⟩; exact ⟨Nat.lt_succ_self _, single, mode⟩) result
            fun _ _ leaders => leaders _ rfl
          exact ⟨by simp, others⟩
        · rename_i place leader
          obtain ⟨before, class_, -⟩ := leading _ rfl
          have better := @prefers_wins (place, leader) (position, ptrl) class_ single
            (Nat.le_of_lt before)
          split at result
          · rename_i preferred
            rw [if_pos preferred] at better
            obtain ⟨leaders, others⟩ := later (some (position, ptrl))
              (by rintro _ ⟨⟩; exact ⟨Nat.lt_succ_self _, single, mode⟩) result
              fun _ _ leaders => leaders _ rfl
            refine ⟨?_, others⟩
            rintro _ ⟨⟩
            exact (leaders _ rfl).trans better
          · rename_i preferred
            rw [if_neg preferred] at better
            exact later _ grown result fun _ _ leaders => (leaders _ rfl).trans better
    · rename_i idle
      exact later best grown result fun waits => absurd waits idle

/-- Where only requests are sent, the queue yields a request, while one waits. -/
theorem pickLocal_request (queue : List FileEntry) (position : Nat) :
    (∀ picked ∈ pickLocal true queue position none, hasType picked.2.type typeRequest) ∧
      (pickLocal true queue position none = none →
        ∀ entry ∈ queue, entry.status = .willsend → ¬ hasType entry.type typeRequest) := by
  induction queue generalizing position with
  | nil => simp [pickLocal]
  | cons ptrl rest inductionHypothesis =>
    obtain ⟨is, none_⟩ := inductionHypothesis (position + 1)
    unfold pickLocal
    rw [if_pos rfl]
    split
    · split
      · rename_i request
        refine ⟨?_, by simp⟩
        rintro _ ⟨⟩
        exact request
      · rename_i other
        refine ⟨is, ?_⟩
        intro nothing
        rw [List.forall_mem_cons]
        exact ⟨fun _ => other, none_ nothing⟩
    · rename_i idle
      refine ⟨is, ?_⟩
      intro nothing
      rw [List.forall_mem_cons]
      exact ⟨fun waits => absurd waits idle, none_ nothing⟩

variable {lists : FileLists}

/-- The queue yields nothing exactly where none of its files can be sent. -/
theorem pickLocal_none (nothing : pickLocal lists.reqsOnly lists.queue 0 none = none) {position : Nat}
    {entry : FileEntry} : ¬ lists.Sendable (.queue position, entry) := by
  rintro ⟨there, waits, request⟩
  have member := List.mem_of_getElem? there
  cases mode : lists.reqsOnly with
  | false =>
    rw [mode] at nothing
    exact pickLocal_waiting lists.queue 0 none (.inr ⟨entry, member, waits⟩) nothing
  | true =>
    rw [mode] at nothing
    exact (pickLocal_request lists.queue 0).2 nothing entry member waits (request position rfl mode)

/-- The answers yield their first waiting file. -/
theorem findIdx_waiting (filelist : List FileEntry) :
    (∀ (index : Nat) (entry : FileEntry), filelist[index]? = some entry → entry.status = .willsend →
      filelist.findIdx (·.status = .willsend) ≤ index) := by
  intro index entry there waits
  by_contra later
  have small := Nat.lt_of_not_le later
  have idle := List.not_of_lt_findIdx small
  obtain ⟨inside, same⟩ := List.getElem?_eq_some_iff.mp there
  rw [same] at idle
  simp [waits] at idle

/-- A file that is chosen can be sent. -/
theorem protGetNextFile_sendable {network : Bool} {source : Source}
    (chosen : protGetNextFile lists network = some source) (local_ : source ≠ .network) :
    ∃ entry, lists.Sendable (source, entry) := by
  obtain ⟨entry, there, waits⟩ := protGetNextFile_some lists source chosen local_
  refine ⟨entry, there, waits, ?_⟩
  rintro position rfl only
  unfold protGetNextFile at chosen
  split at chosen
  · rename_i place other picked
    cases chosen
    rcases pickLocal_some _ _ _ _ _ picked with impossible | ⟨offset, same, here, -⟩
    · cases impossible
    · rw [only] at picked
      have request := (pickLocal_request lists.queue 0).1 _ picked
      rw [Nat.zero_add] at same
      have joined : some other = some entry := by
        rw [← here, ← same]
        exact there
      cases joined
      exact request
  · split at chosen
    · cases chosen
    · split at chosen
      · cases chosen
      · cases chosen

/-- Where nothing is chosen, nothing can be sent. -/
theorem protGetNextFile_none {network : Bool} (nothing : protGetNextFile lists network = none)
    (file : Source × FileEntry) : ¬ lists.Sendable file := by
  obtain ⟨source, entry⟩ := file
  unfold protGetNextFile at nothing
  split at nothing
  · cases nothing
  · rename_i queue
    split at nothing
    · cases nothing
    · rename_i late
      cases source with
      | queue position => exact pickLocal_none queue
      | filelist position =>
        rintro ⟨there, waits, -⟩
        have first := findIdx_waiting lists.filelist position entry there waits
        obtain ⟨inside, -⟩ := List.getElem?_eq_some_iff.mp there
        omega
      | network =>
        rintro ⟨there, -⟩
        cases there

/-- Other files stay as they are while one is begun. -/
theorem entry_begin_apart {source other : Source} (apart : source ≠ other) :
    (lists.begin source).entry other = lists.entry other := by
  cases source with
  | network => rfl
  | queue position =>
    cases other with
    | queue place =>
      have different : position ≠ place := fun same => apart (congrArg Source.queue same)
      simp [FileLists.begin, FileLists.entry, different]
    | filelist place => rfl
    | network => rfl
  | filelist position =>
    cases other with
    | filelist place =>
      have different : position ≠ place := fun same => apart (congrArg Source.filelist same)
      simp [FileLists.begin, FileLists.entry, different]
    | queue place => rfl
    | network => rfl

/-- A file that is begun does not wait. -/
theorem begin_idle (source : Source) {entry : FileEntry}
    (there : (lists.begin source).entry source = some entry) : entry.status ≠ .willsend := by
  cases source with
  | network => cases there
  | queue position =>
    simp only [FileLists.begin, FileLists.entry, List.getElem?_modify_eq] at there
    obtain ⟨-, -, rfl⟩ := Option.map_eq_some_iff.mp there
    rintro ⟨⟩
  | filelist position =>
    simp only [FileLists.begin, FileLists.entry, List.getElem?_modify_eq] at there
    obtain ⟨-, -, rfl⟩ := Option.map_eq_some_iff.mp there
    rintro ⟨⟩

/-- The next file of the lists, and the lists where it is begun. -/
def pickNext (lists : FileLists) : Option ((Source × FileEntry) × FileLists) :=
  match protGetNextFile lists false with
  | none => none
  | some source => (lists.entry source).map fun entry => ((source, entry), lists.begin source)

/-- What is picked was chosen, and is begun. -/
theorem pickNext_some {file : Source × FileEntry} {after : FileLists}
    (picked : pickNext lists = some (file, after)) :
    protGetNextFile lists false = some file.1 ∧ lists.entry file.1 = some file.2 ∧
      after = lists.begin file.1 := by
  unfold pickNext at picked
  split at picked
  · cases picked
  · rename_i source chosen
    obtain ⟨entry, there, same⟩ := Option.map_eq_some_iff.mp picked
    cases same
    exact ⟨chosen, there, rfl⟩

/-- The spool is not asked. -/
theorem protGetNextFile_local {source : Source} (chosen : protGetNextFile lists false = some source) :
    source ≠ .network := by
  unfold protGetNextFile at chosen
  split at chosen
  · cases chosen
    nofun
  · split at chosen
    · cases chosen
      nofun
    · cases chosen

/-- The selection of files from the lists. -/
def fileSelection : Selection FileLists (Source × FileEntry) where
  next := pickNext
  Ready := FileLists.Sendable
  count := FileLists.waiting
  ready {lists _ file} picked := by
    obtain ⟨chosen, there, -⟩ := pickNext_some picked
    obtain ⟨entry, sendable⟩ := protGetNextFile_sendable chosen (protGetNextFile_local chosen)
    have same : some file.2 = some entry := there.symm.trans sendable.1
    cases same
    exact sendable
  gone {lists _ file} picked := by
    obtain ⟨-, -, rfl⟩ := pickNext_some picked
    rintro ⟨there, waits, -⟩
    exact begin_idle file.1 there waits
  fewer {lists _ file other} picked there := by
    obtain ⟨-, -, rfl⟩ := pickNext_some picked
    have narrows : lists.Narrows (lists.begin file.1) := narrows_begin_lists file.1
    obtain ⟨here, waits, request⟩ := there
    exact ⟨narrows.entry other.1 other.2 here waits, waits,
      fun position is only => request position is (narrows.reqsOnly.trans only)⟩
  stays {lists _ file other} picked there apart := by
    obtain ⟨-, first, rfl⟩ := pickNext_some picked
    obtain ⟨here, waits, request⟩ := there
    have sources : file.1 ≠ other.1 := by
      intro same
      rw [← same] at here
      have entries : some file.2 = some other.2 := first.symm.trans here
      exact apart (Prod.ext same.symm (Option.some.inj entries).symm)
    have narrows : lists.Narrows (lists.begin file.1) := narrows_begin_lists file.1
    exact ⟨(entry_begin_apart sources).trans here, waits,
      fun position is only => request position is (narrows.reqsOnly.symm.trans only)⟩
  ends {lists file} last := by
    apply @protGetNextFile_none lists false
    unfold pickNext at last
    split at last
    · assumption
    · rename_i source chosen
      obtain ⟨entry, sendable⟩ := protGetNextFile_sendable chosen (protGetNextFile_local chosen)
      rw [sendable.1] at last
      cases last
  counts {lists _ file} picked := by
    obtain ⟨chosen, there, rfl⟩ := pickNext_some picked
    obtain ⟨entry, sendable⟩ := protGetNextFile_sendable chosen (protGetNextFile_local chosen)
    exact waiting_begin file.1 entry sendable.1 sendable.2.1

/-! ## Calls -/

/-- What happens in a call of `p_tx_fopen` and before the next one: which files can be opened, whether the
spool offers one, and what becomes of the file that was opened. It does not wait again. -/
structure SendStep where
  accessible : Source → Bool
  network : Bool
  status : FileStatus
  changed : status ≠ .willsend

/-- The files the loop of `p_tx_fopen` takes, up to one that can be opened. -/
def openPicks (accessible : Source → Bool) : Nat → FileLists → List (Source × FileEntry)
  | 0, _ => []
  | fuel + 1, lists =>
    match pickNext lists with
    | none => []
    | some (file, after) =>
      file :: if accessible file.1 then [] else openPicks accessible fuel after

/-- Change the status of a file. -/
def FileLists.settle (lists : FileLists) (status : FileStatus) : Source → FileLists
  | .queue position => { lists with queue := lists.queue.modify position ({ · with status }) }
  | .filelist position => { lists with filelist := lists.filelist.modify position ({ · with status }) }
  | .network => lists

/-- A call of `p_tx_fopen`: the files it took, the one it opened, and the lists after it. -/
structure SendCall where
  picks : List (Source × FileEntry)
  opened : Option Source
  after : FileLists

/-- `p_tx_fopen`, as far as it takes files. -/
def sendCall (holdall : Bool) (step : SendStep) (lists : FileLists) : SendCall where
  picks := if holdall then [] else openPicks step.accessible (lists.waiting + 1) lists
  opened := (pTxFopenNext holdall step.accessible step.network lists).2
  after := (pTxFopenNext holdall step.accessible step.network lists).1

/-- The lists when the next call comes. -/
def SendCall.left (call : SendCall) (step : SendStep) : FileLists :=
  match call.opened with
  | none => call.after
  | some source => call.after.settle step.status source

/-- One call after another. -/
def sendCalls (holdall : Bool) : List SendStep → FileLists → List SendCall
  | [], _ => []
  | step :: rest, lists =>
    sendCall holdall step lists :: sendCalls holdall rest ((sendCall holdall step lists).left step)

/-- What a sequence of calls should do: every file that waits is taken at most once, in the order of
classes and flavours; the last file a call takes is the one it opens; and a call finds nothing only
where nothing can be sent. -/
structure SendRight (holdall : Bool) (steps : List SendStep) (lists : FileLists) : Prop where
  once : (((sendCalls holdall steps lists).flatMap (·.picks)).map Prod.fst).Nodup
  waiting : ∀ file ∈ (sendCalls holdall steps lists).flatMap (·.picks), lists.Sendable file
  ordered : ((sendCalls holdall steps lists).flatMap (·.picks)).Pairwise fun a b => SentBefore a.2 b.2
  opens : ∀ call ∈ sendCalls holdall steps lists, ∀ source ∈ call.opened, source ≠ .network →
    ∃ entry, call.picks.getLast? = some (source, entry)
  ends : ∀ call ∈ sendCalls holdall steps lists, call.opened = none →
    holdall = true ∨ ∀ file, ¬ call.after.Sendable file

/-- Other files and requests stand in the queue by their flavours, and so do the answers, which no file
of the queue should follow. -/
structure InOrder (lists : FileLists) : Prop where
  queue : ∀ (first second : Nat) (a b : FileEntry), first < second → lists.Sendable (.queue first, a) →
    lists.Sendable (.queue second, b) → sendClass a.type = sendClass b.type → 2 ≤ sendClass a.type →
      b.flavor ≤ a.flavor
  answers : ∀ (first second : Nat) (a b : FileEntry), first < second →
    lists.Sendable (.filelist first, a) → lists.Sendable (.filelist second, b) → SentBefore a b
  apart : ∀ (first second : Nat) (a b : FileEntry), lists.Sendable (.queue first, a) →
    lists.Sendable (.filelist second, b) → SentBefore a b

/-- The spool comes after all files. -/
theorem protGetNextFile_network (network : Bool) :
    protGetNextFile lists network =
      match protGetNextFile lists false with
      | some source => some source
      | none => if network then some .network else none := by
  unfold protGetNextFile
  split
  · rfl
  · split
    · rfl
    · rfl

/-! ## What the calls take -/

/-- Nothing is picked exactly where the lists yield no file. -/
theorem pickNext_none (nothing : pickNext lists = none) : protGetNextFile lists false = none := by
  unfold pickNext at nothing
  split at nothing
  · assumption
  · rename_i source chosen
    obtain ⟨entry, sendable⟩ := protGetNextFile_sendable chosen (protGetNextFile_local chosen)
    rw [sendable.1] at nothing
    cases nothing

/-- What the loop of a call does: it picks files, the last of which is opened, and where it opens none,
nothing that can be sent is left. -/
structure Opens (lists : FileLists) (taken : List (Source × FileEntry)) (opened : Option Source)
    (after : FileLists) : Prop where
  picks : fileSelection.Picks lists taken after
  last : ∀ source ∈ opened, source ≠ .network → ∃ entry, taken.getLast? = some (source, entry)
  ends : opened = none → ∀ file, ¬ after.Sendable file

/-- A file of the lists is opened, or begun and another one tried. -/
theorem openNext_some {accessible : Source → Bool} {network : Bool} {fuel : Nat} {source : Source}
    (chosen : protGetNextFile lists network = some source) (notSpool : source ≠ .network) :
    openNext accessible network (fuel + 1) lists =
      if accessible source then (lists.begin source, some source)
      else openNext accessible network fuel (lists.begin source) := by
  conv_lhs => unfold openNext
  rw [chosen]
  cases source with
  | network => exact absurd rfl notSpool
  | queue position => rfl
  | filelist position => rfl

/-- The loop of a call picks files, the last of which is the one that is opened. -/
theorem openPicks_opens (accessible : Source → Bool) (network : Bool) (fuel : Nat)
    (enough : lists.waiting < fuel) :
    Opens lists (openPicks accessible fuel lists) (openNext accessible network fuel lists).2
      (openNext accessible network fuel lists).1 := by
  induction fuel generalizing lists with
  | zero => exact absurd enough (Nat.not_lt_zero _)
  | succ fuel inductionHypothesis =>
    have chosen := @protGetNextFile_network lists network
    unfold openPicks
    cases picked : pickNext lists with
    | none =>
      have nothing := pickNext_none picked
      rw [nothing] at chosen
      unfold openNext
      cases network with
      | true =>
        rw [chosen]
        refine ⟨.done lists, ?_, by simp⟩
        rintro _ ⟨⟩ spool
        exact absurd rfl spool
      | false =>
        rw [chosen]
        exact ⟨.done lists, by simp, fun _ => protGetNextFile_none nothing⟩
    | some next =>
      obtain ⟨file, after⟩ := next
      obtain ⟨local_, there, rfl⟩ := pickNext_some picked
      rw [local_] at chosen
      rw [openNext_some chosen (protGetNextFile_local local_)]
      dsimp only
      by_cases can : accessible file.1 = true
      · rw [if_pos can, if_pos can]
        refine ⟨.pick picked (.done _), ?_, by simp⟩
        rintro _ ⟨⟩ -
        exact ⟨file.2, rfl⟩
      · rw [if_neg can, if_neg can]
        have fewer : (lists.begin file.1).waiting < lists.waiting := fileSelection.counts picked
        obtain ⟨picks, last, ends⟩ := @inductionHypothesis (lists.begin file.1) (by omega)
        refine ⟨.pick picked picks, ?_, ends⟩
        intro source opened spool
        obtain ⟨entry, final⟩ := last source opened spool
        rw [List.getLast?_cons, final]
        exact ⟨entry, rfl⟩

/-- A file whose status is changed to another does not wait. -/
theorem narrows_settle {queue : List FileEntry} {position : Nat} {status : FileStatus}
    (changed : status ≠ .willsend) :
    Narrows queue (queue.modify position ({ · with status })) := by
  intro index entry there waits
  rw [List.getElem?_modify] at there
  split at there
  · obtain ⟨original, _, rfl⟩ := Option.map_eq_some_iff.mp there
    exact absurd waits changed
  · simpa using there

/-- Files that wait in fewer places are withdrawn. -/
theorem FileLists.Narrows.withdraws {after : FileLists} (narrows : lists.Narrows after) :
    fileSelection.Withdraws lists after := by
  rintro ⟨source, entry⟩ ⟨there, waits, request⟩
  exact ⟨narrows.entry source entry there waits, waits,
    fun position is only => request position is (narrows.reqsOnly.trans only)⟩

theorem settle_narrows {status : FileStatus} (changed : status ≠ .willsend) (source : Source) :
    lists.Narrows (lists.settle status source) := by
  cases source with
  | queue position => exact ⟨narrows_settle changed, .refl _, rfl⟩
  | filelist position => exact ⟨.refl _, narrows_settle changed, rfl⟩
  | network => exact .refl lists

/-- A call picks files, and its file is settled before the next one. -/
theorem sendCall_picks (holdall : Bool) (step : SendStep) (lists : FileLists) :
    fileSelection.Picks lists (sendCall holdall step lists).picks
      ((sendCall holdall step lists).left step) := by
  have settled (call : SendCall) (picks : fileSelection.Picks lists call.picks call.after) :
      fileSelection.Picks lists call.picks (call.left step) := by
    unfold SendCall.left
    split
    · exact picks
    · rename_i source _
      have fewer := (@settle_narrows call.after step.status step.changed source).withdraws
      have joined := picks.append (.withdraw fewer (.done _))
      rwa [List.append_nil] at joined
  apply settled
  unfold sendCall pTxFopenNext
  cases holdall with
  | true => exact .done lists
  | false => exact (openPicks_opens step.accessible step.network _ (Nat.lt_succ_self _)).picks

/-- The picks of all calls are made one after another. -/
theorem sendCalls_picks (holdall : Bool) (steps : List SendStep) (lists : FileLists) :
    ∃ after, fileSelection.Picks lists ((sendCalls holdall steps lists).flatMap (·.picks)) after := by
  induction steps generalizing lists with
  | nil => exact ⟨lists, .done lists⟩
  | cons step rest inductionHypothesis =>
    obtain ⟨after, later⟩ := inductionHypothesis ((sendCall holdall step lists).left step)
    refine ⟨after, ?_⟩
    unfold sendCalls
    rw [List.flatMap_cons]
    exact (sendCall_picks holdall step lists).append later

/-- Whatever holds of each call holds of all of them. -/
theorem sendCalls_all {holdall : Bool} {P : SendCall → Prop}
    (each : ∀ step lists, P (sendCall holdall step lists)) (steps : List SendStep) (lists : FileLists) :
    ∀ call ∈ sendCalls holdall steps lists, P call := by
  induction steps generalizing lists with
  | nil => nofun
  | cons step rest inductionHypothesis =>
    unfold sendCalls
    rw [List.forall_mem_cons]
    exact ⟨each step lists, inductionHypothesis _⟩

/-- All that does not depend on the order of the queue. -/
theorem sendRight_of_ordered {holdall : Bool} {steps : List SendStep}
    (ordered : ((sendCalls holdall steps lists).flatMap (·.picks)).Pairwise
      fun a b => SentBefore a.2 b.2) : SendRight holdall steps lists := by
  obtain ⟨after, picks⟩ := sendCalls_picks holdall steps lists
  refine ⟨?_, picks.ready, ordered, ?_, ?_⟩
  · apply picks.nodup.map_on
    intro a isA b isB same
    have thereA := (picks.ready a isA).1
    have thereB := (picks.ready b isB).1
    rw [same] at thereA
    exact Prod.ext same (Option.some.inj (thereA.symm.trans thereB))
  · apply sendCalls_all
    intro step lists
    unfold sendCall pTxFopenNext
    cases holdall with
    | true => nofun
    | false => exact (openPicks_opens step.accessible step.network _ (Nat.lt_succ_self _)).last
  · apply sendCalls_all
    intro step lists
    unfold sendCall pTxFopenNext
    cases holdall with
    | true => exact fun _ => .inl rfl
    | false =>
      intro nothing
      exact .inr ((openPicks_opens step.accessible step.network _ (Nat.lt_succ_self _)).ends nothing)

/-! ## The order -/

/-- A file picked from the queue wins over all that can be sent from there. -/
theorem pick_queue (one : ∀ position entry, lists.Sendable (.queue position, entry) → OneClass entry.type)
    {position : Nat} {entry : FileEntry} {after : FileLists}
    (picked : pickNext lists = some ((.queue position, entry), after)) {place : Nat} {other : FileEntry}
    (there : lists.Sendable (.queue place, other)) : Wins (position, entry) (place, other) := by
  obtain ⟨chosen, here, -⟩ := pickNext_some picked
  unfold protGetNextFile at chosen
  split at chosen
  · rename_i first best result
    cases chosen
    have entries : entry = best := by
      rcases pickLocal_some _ _ _ _ _ result with impossible | ⟨offset, same, found, -⟩
      · cases impossible
      · rw [Nat.zero_add] at same
        subst same
        exact Option.some.inj (here.symm.trans found)
    subst entries
    obtain ⟨found, waits, request⟩ := there
    have wins := (pickLocal_wins 0 none ?_ nofun result).2 place other found waits (request place rfl)
    · rwa [Nat.zero_add] at wins
    · intro file member waits' request'
      obtain ⟨index, inside⟩ := List.mem_iff_getElem?.mp member
      exact one index file ⟨inside, waits', fun _ _ => request'⟩
  · split at chosen
    · cases chosen
    · cases chosen

/-- An answer is picked where no file of the queue can be sent, and it is the first one. -/
theorem pick_filelist {position : Nat} {entry : FileEntry} {after : FileLists}
    (picked : pickNext lists = some ((.filelist position, entry), after)) :
    (∀ place other, ¬ lists.Sendable (.queue place, other)) ∧
      ∀ place other, lists.Sendable (.filelist place, other) → position ≤ place := by
  obtain ⟨chosen, -, -⟩ := pickNext_some picked
  unfold protGetNextFile at chosen
  split at chosen
  · cases chosen
  · rename_i queue
    split at chosen
    · cases chosen
      refine ⟨fun _ _ => pickLocal_none queue, ?_⟩
      rintro place other ⟨there, waits, -⟩
      exact findIdx_waiting lists.filelist place other there waits
    · cases chosen

theorem SentBefore.refl (file : FileEntry) : SentBefore file file := .inr ⟨rfl, Nat.le_refl _⟩

/-- Where the lists are in order, each pick may be sent before all that can still be sent. -/
theorem pick_before (one : ∀ position entry, lists.Sendable (.queue position, entry) → OneClass entry.type)
    (order : InOrder lists) {middle after : FileLists} {file other : Source × FileEntry}
    (fewer : fileSelection.Withdraws lists middle) (picked : pickNext middle = some (file, after))
    (there : middle.Sendable other) : SentBefore file.2 other.2 := by
  have ready : middle.Sendable file := fileSelection.ready picked
  obtain ⟨source, entry⟩ := file
  obtain ⟨place, second⟩ := other
  have outside : ∀ file, ¬ middle.Sendable (.network, file) := by
    rintro file ⟨none_, -⟩
    cases none_
  cases source with
  | network => exact absurd ready (outside entry)
  | queue position =>
    cases place with
    | network => exact absurd there (outside second)
    | filelist index => exact order.apart position index entry second (fewer _ ready) (fewer _ there)
    | queue index =>
      have wins := pick_queue (fun place file sendable => one place file (fewer _ sendable)) picked there
      rcases wins with less | ⟨same, rule⟩
      · exact .inl less
      · refine .inr ⟨same, ?_⟩
        split at rule
        · exact rule
        · rename_i listed
          rcases Nat.lt_or_eq_of_le rule with earlier | rfl
          · exact order.queue position index entry second earlier (fewer _ ready) (fewer _ there) same
              (Nat.lt_of_not_le listed)
          · obtain rfl : entry = second := Option.some.inj (ready.1.symm.trans there.1)
            exact Nat.le_refl _
  | filelist position =>
    obtain ⟨none_, first⟩ := pick_filelist picked
    cases place with
    | network => exact absurd there (outside second)
    | queue index => exact absurd there (none_ index second)
    | filelist index =>
      rcases Nat.lt_or_eq_of_le (first index second there) with earlier | rfl
      · exact order.answers position index entry second earlier (fewer _ ready) (fewer _ there)
      · obtain rfl : entry = second := Option.some.inj (ready.1.symm.trans there.1)
        exact .refl entry

/-- Where no file can be opened, one call takes all of them. -/
theorem openPicks_drain (fuel : Nat) (lists : FileLists) :
    openPicks (fun _ => false) fuel lists = fileSelection.drain fuel lists := by
  induction fuel generalizing lists with
  | zero => rfl
  | succ fuel inductionHypothesis =>
    unfold openPicks Selection.drain
    have same : fileSelection.next lists = pickNext lists := rfl
    rw [same]
    cases pickNext lists with
    | none => rfl
    | some next => exact congrArg (next.1 :: ·) (inductionHypothesis next.2)

/-- Files that are taken in the order of classes and flavours, where none can be opened, are in order. -/
theorem inOrder_of_drain
    (one : ∀ position entry, lists.Sendable (.queue position, entry) → OneClass entry.type)
    (ordered : (fileSelection.drain (lists.waiting + 1) lists).Pairwise
      fun a b => SentBefore a.2 b.2) : InOrder lists := by
  have related {a b : Source × FileEntry} := @Selection.drain_related _ _ fileSelection
    (fun a b => SentBefore a.2 b.2) _ _ (Nat.lt_succ_self lists.waiting) ordered a b
  constructor
  · intro first second a b earlier thereA thereB same listed
    have apart : (Source.queue first, a) ≠ (Source.queue second, b) := by
      rintro ⟨⟩
      exact Nat.lt_irrefl _ earlier
    have before : SentBefore a b := by
      apply related thereA thereB apart
      intro middle after fewer ready picked
      have wins := pick_queue (fun place file sendable => one place file (fewer _ sendable)) picked ready
      rcases wins with less | ⟨-, rule⟩
      · exact Nat.lt_irrefl _ (same ▸ less)
      · rw [if_neg (Nat.not_le_of_lt (same ▸ listed))] at rule
        exact Nat.not_le_of_lt earlier rule
    rcases before with less | ⟨-, higher⟩
    · exact absurd less (Nat.not_lt_of_le (Nat.le_of_eq same.symm))
    · exact higher
  · intro first second a b earlier thereA thereB
    have apart : (Source.filelist first, a) ≠ (Source.filelist second, b) := by
      rintro ⟨⟩
      exact Nat.lt_irrefl _ earlier
    apply related thereA thereB apart
    intro middle after fewer ready picked
    exact Nat.not_le_of_lt earlier ((pick_filelist picked).2 first a ready)
  · intro first second a b thereA thereB
    apply related thereA thereB nofun
    intro middle after fewer ready picked
    exact (pick_filelist picked).1 first a ready

/-- The files are sent in the order of classes and flavours, whatever the calls meet, exactly where all is
held or the other files, the requests and the answers stand in that order. -/
theorem send_order {holdall : Bool}
    (one : ∀ position entry, lists.Sendable (.queue position, entry) → OneClass entry.type) :
    (∀ steps, SendRight holdall steps lists) ↔ holdall = true ∨ InOrder lists := by
  constructor
  · intro right
    cases holdall with
    | true => exact .inl rfl
    | false =>
      refine .inr (inOrder_of_drain one ?_)
      have ordered := (right [⟨fun _ => false, false, .sent, nofun⟩]).ordered
      rw [← openPicks_drain]
      simpa [sendCalls, sendCall] using ordered
  · intro right steps
    apply sendRight_of_ordered
    rcases right with rfl | order
    · have nothing : ∀ call ∈ sendCalls true steps lists, call.picks = [] :=
        sendCalls_all (fun _ _ => rfl) steps lists
      rw [List.flatMap_eq_nil_iff.mpr nothing]
      exact .nil
    · obtain ⟨after, picks⟩ := sendCalls_picks holdall steps lists
      exact picks.pairwise fun _ _ _ fewer picked _ there => pick_before one order fewer picked there

/-- A letter and the arcmail of a higher flavour that stands before it are in order. -/
theorem send_order_mail :
    (∀ steps, SendRight false steps
      ⟨[⟨ascii "01.mo0", 900, typeArcmail, 0x10, .truncate, .willsend, -1⟩,
        ⟨ascii "02.pkt", 300, typeNetmail, 0x02, .unlink, .willsend, -1⟩], [], false⟩) ↔
      false = true ∨ InOrder
      ⟨[⟨ascii "01.mo0", 900, typeArcmail, 0x10, .truncate, .willsend, -1⟩,
        ⟨ascii "02.pkt", 300, typeNetmail, 0x02, .unlink, .willsend, -1⟩], [], false⟩ := by
  apply send_order
  rintro position entry ⟨there, -⟩
  have member := List.mem_of_getElem? there
  rcases List.mem_cons.mp member with rfl | later
  · exact ⟨by decide, by decide, by decide⟩
  · rw [List.mem_singleton] at later
    subst later
    exact ⟨by decide, by decide, by decide⟩

/-- Of two files of a flow file, the one for a normal call is sent before the one for a crash call. -/
theorem normal_before_crash :
    ¬ SendRight false [⟨fun _ => true, false, .sent, nofun⟩, ⟨fun _ => true, false, .sent, nofun⟩]
      ⟨[⟨ascii "a.zip", 10, 0x20, 0x02, .nothing, .willsend, -1⟩,
        ⟨ascii "b.zip", 20, 0x20, 0x10, .nothing, .willsend, -1⟩], [], false⟩ := by
  intro right
  exact absurd right.ordered (by decide)

end Binkleyforce
