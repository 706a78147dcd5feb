import Binkleyforce.Daemon.Current
import Binkleyforce.Library.Runs

/-!
# What is done after too many tries

An action that fires for a system is to keep the daemon from calling it: the system is
undialable, or it is held until some time, or all systems are. Of these the status file
keeps the time the system is held until. The undialable mark is read back from the file,
which does not hold it, and the time all systems are held until is looked at nowhere.
-/

namespace Binkleyforce

open Library

/-- The clock is read past a time at this event. -/
def DaemonEvent.ReadsPast (time : UInt64) : DaemonEvent → Prop
  | .queueDo _ world => time < world.time ∨ ∃ pos, time < (world.looks pos).holdTime
  | _ => False

/-- The status of the system is set by another process, or the daemon begins anew. -/
def DaemonEvent.resets (system : Int × Int × Int × Int) : DaemonEvent → Bool
  | .elsewhere addr _ => addr.numbers = system
  | .restart _ => true
  | _ => false

namespace Daemon

/-- The action that fires when a call is reaped, with the entry of its system. -/
def fired (d : Daemon) (world : ReapWorld) : Option (SysEntry × Tries) := do
  let i ← daemonBranchGetFirstWaiting d.branches
  let branch ← d.branches[i]?
  let syst ← d.systab[d.systab.findIdx fun entry => ftnAddrcomp entry.node.addr branch.addr]?
  let act ← world.conf.reached (sessionStatGet d.files world.readable branch.addr)
  return (syst, act)

/-- The time an action holds until. -/
def holdsUntil (world : ReapWorld) (act : Tries) : UInt64 := world.actTime + UInt64.ofInt act.arg

/-- A call to the system is started at the event. -/
def StartsCall (d : Daemon) (event : DaemonEvent) (system : Int × Int × Int × Int) : Prop :=
  ∃ branch : Branch, (d.step event).branches = d.branches ++ [branch] ∧
    branch.addr.numbers = system

/-- The call at the last event, if there is one, is not in the state that the action has
announced for the system. -/
def Respects (act : Tries) (time : UInt64) (system : Int × Int × Int × Int) (d : Daemon)
    (more : List DaemonEvent) (last : DaemonEvent) : Prop :=
  match act.action with
  | .undialable => (d.after more).StartsCall last system → ∃ event ∈ more, event.resets system = true
  | .holdsystem => (d.after more).StartsCall last system →
      ∃ event ∈ more ++ [last], event.ReadsPast time
  | .holdall => ∀ other, (d.after more).StartsCall last other →
      ∃ event ∈ more ++ [last], event.ReadsPast time

/-- The actions that fire hold their system until a time that is none of the special ones,
the daemon can read its status files, and write them then, and no other process moves the
time of a hold back. -/
def Governed (d : Daemon) : DaemonEvent → Prop
  | .rescan world _ _ => ∀ addr, world.readable addr = true
  | .reap world => world.readable = true ∧ world.act.readable = true ∧
      ∀ syst act, d.fired world = some (syst, act) →
        act.action = .holdsystem ∧ 1 < holdsUntil world act ∧ world.act.written = true
  | .elsewhere addr content =>
    (statOf (d.files addr.numbers)).holdUntil ≤ (statOf content).holdUntil
  | _ => True

/-- The event as a turn. -/
def turn (d : Daemon) (event : DaemonEvent) : Turn Daemon Empty := .more (d.step event)

/-- The system is held in its status file and in the table. -/
structure Withheld (d : Daemon) (system : Int × Int × Int × Int) (time : UInt64) : Prop where
  file : time ≤ (statOf (d.files system)).holdUntil
  entries : ∀ entry ∈ d.systab, entry.system = system → time ≤ entry.stat.holdUntil

/-- The system is at the place of no queue. -/
def Away (d : Daemon) (system : Int × Int × Int × Int) : Prop :=
  ∀ which, denoted SysEntry.system d.systab (d.currents which) ≠ some system

/-- The systems that are called. -/
def called (d : Daemon) : List (Int × Int × Int × Int) := d.branches.map fun branch => branch.addr.numbers

/-- No system at the place of a queue is called. -/
def Calm (d : Daemon) : Prop :=
  ∀ which system, denoted SysEntry.system d.systab (d.currents which) = some system →
    system ∉ d.called

/-! ## Systems at the place of a queue are not called -/

theorem daemonBranchExist_iff (branches : List Branch) (addr : Faddr) :
    daemonBranchExist branches addr = true ↔
      addr.numbers ∈ branches.map fun branch => branch.addr.numbers := by
  unfold daemonBranchExist
  simp only [List.any_eq_true, ftnAddrcomp_iff, List.mem_map]

/-- Where the queues keep their systems no new call disturbs them. -/
theorem Calm.keeps {d after : Daemon} (calm : Calm d) (keeps : ∀ which, KeepsCurrent d after which)
    (old : after.called ⊆ d.called) : Calm after := by
  intro which system here there
  rcases keeps which with same | ⟨none_, -⟩
  · exact calm which system (same ▸ here) (old there)
  · rw [none_] at here
    cases here

theorem Away.keeps {d after : Daemon} {system : Int × Int × Int × Int} (away : Away d system)
    (keeps : ∀ which, KeepsCurrent d after which) : Away after system := by
  intro which here
  rcases keeps which with same | ⟨none_, -⟩
  · exact away which (same ▸ here)
  · rw [none_] at here
    cases here

/-- What `daemon_call` changes: a new call may be there, and then another system is chosen. -/
theorem callCurrent_calls (world : StepWorld) (which : Transport) (d : Daemon) :
    (d.callCurrent world which).2.files = d.files ∧
      ((d.callCurrent world which).2.branches = d.branches ∨
        (d.callCurrent world which).1 = true ∧
          ∃ branch : Branch, (d.callCurrent world which).2.branches = d.branches ++ [branch] ∧
            denoted SysEntry.system d.systab (d.currents which) = some branch.addr.numbers) := by
  unfold callCurrent
  split
  · exact ⟨rfl, .inl rfl⟩
  · rename_i pos at_
    split
    · exact ⟨rfl, .inl rfl⟩
    · rename_i syst there
      split
      · split
        · exact ⟨rfl, .inl rfl⟩
        · unfold daemonCall
          dsimp only
          generalize (if syst.tcpip = true then Transport.tcpip else Transport.modem) = transport
          split
          · exact ⟨rfl, .inl rfl⟩
          · split
            · exact ⟨rfl, .inl rfl⟩
            · split
              · exact ⟨rfl, .inl rfl⟩
              · split
                · refine ⟨rfl, .inr ⟨rfl, _, rfl, ?_⟩⟩
                  unfold denoted currents
                  rw [at_, Option.bind_some, there]
                  rfl
                · exact ⟨rfl, .inl rfl⟩
      · exact ⟨rfl, .inl rfl⟩

/-- Two queues are never at one system. -/
theorem Consistent.apart {d : Daemon} (consistent : Consistent d) {which other : Transport}
    {system : Int × Int × Int × Int}
    (here : denoted SysEntry.system d.systab (d.currents which) = some system)
    (also : denoted SysEntry.system d.systab (d.currents other) = some system) : which = other := by
  unfold denoted at here also
  rw [Option.bind_eq_some_iff] at here also
  obtain ⟨pos, at_, found⟩ := here
  obtain ⟨pos', at_', found'⟩ := also
  rw [← List.getElem?_map] at found found'
  obtain ⟨inside, value⟩ := List.getElem?_eq_some_iff.mp found
  obtain ⟨inside', value'⟩ := List.getElem?_eq_some_iff.mp found'
  have same : pos = pos' := (consistent.distinct.getElem_inj_iff).mp (value.trans value'.symm)
  exact consistent.marked.apart which other pos at_ (same ▸ at_')

/-- A step of a queue leaves the systems at the places not called. -/
theorem daemonQueueDo_calm (world : StepWorld) (which : Transport) (d : Daemon)
    (consistent : Consistent d) (calm : Calm d) : Calm (d.daemonQueueDo world which) := by
  obtain ⟨table, queues⟩ := d.callCurrent_table world which
  obtain ⟨-, calls⟩ := d.callCurrent_calls world which
  have still : ∀ other, denoted SysEntry.system (d.callCurrent world which).2.systab
      ((d.callCurrent world which).2.currents other) =
        denoted SysEntry.system d.systab (d.currents other) := by
    intro other
    unfold currents
    rw [table, queues]
  unfold daemonQueueDo
  dsimp only
  split
  · have fine : Consistent (d.callCurrent world which).2 :=
      consistent.congr (by rw [table]) (by rw [table]) queues
    obtain ⟨-, systems, away, branches, quiet⟩ :=
      (d.callCurrent world which).2.selectNext_consistent world which fine
    intro other system here there
    unfold called at there
    rw [branches] at there
    by_cases same : other = which
    · subst same
      unfold denoted at here
      rw [Option.bind_eq_some_iff] at here
      obtain ⟨pos, at_, found⟩ := here
      obtain ⟨entry, is, free⟩ := quiet pos at_
      rw [is, Option.map_some] at found
      obtain rfl := Option.some.inj found
      exact Bool.eq_false_iff.mp free ((daemonBranchExist_iff _ _).mpr there)
    · have before : denoted SysEntry.system d.systab (d.currents other) = some system := by
        rw [← still other, ← here]
        unfold currents
        rw [away other same, denoted_congr systems]
      rcases calls with old | ⟨-, branch, new, own⟩
      · rw [old] at there
        exact calm other system before there
      · rw [new, List.map_append, List.mem_append, List.map_singleton, List.mem_singleton] at there
        rcases there with old | latest
        · exact calm other system before old
        · exact same (consistent.apart before (latest ▸ own))
  · rename_i stays
    rcases calls with old | ⟨next, -⟩
    · intro other system here there
      unfold called at there
      rw [old] at there
      exact calm other system (still other ▸ here) there
    · exact absurd next stays

/-- The systems that are called once an exit was handled. -/
theorem daemonBranchExit_called (pid rc : Int) :
    ∀ branches after : List Branch, daemonBranchExit pid rc branches = some after →
      (after.map fun branch => branch.addr.numbers) = branches.map fun branch => branch.addr.numbers := by
  intro branches
  induction branches with
  | nil => exact fun after found => nomatch found
  | cons branch rest later =>
    intro after found
    unfold daemonBranchExit at found
    split at found
    · obtain rfl := Option.some.inj found
      rfl
    · rw [Option.map_eq_some_iff] at found
      obtain ⟨tail, found, rfl⟩ := found
      rw [List.map_cons, List.map_cons, later tail found]

/-- Removing systems changes nothing else. -/
theorem removeLoop_rest (goes : SysEntry → Bool) (left : Nat) :
    ∀ (pos : Nat) (d : Daemon), (d.removeLoop goes left pos).branches = d.branches ∧
      (d.removeLoop goes left pos).files = d.files := by
  induction left with
  | zero => exact fun _ _ => ⟨rfl, rfl⟩
  | succ left later =>
    intro pos d
    unfold removeLoop
    split
    · exact ⟨rfl, rfl⟩
    · obtain ⟨branches, files⟩ := later (pos + 1) (if goes _ then d.removeSystem pos else d)
      rw [branches, files]
      split <;> exact ⟨rfl, rfl⟩

/-- Scanning the outbound changes neither calls nor files. -/
theorem foldl_outHandle_rest (world : EntryWorld) (found : List Scanned) :
    ∀ d : Daemon, (found.foldl (outHandleSysqueue world) d).branches = d.branches ∧
      (found.foldl (outHandleSysqueue world) d).files = d.files := by
  induction found with
  | nil => exact fun _ => ⟨rfl, rfl⟩
  | cons file rest later =>
    intro d
    obtain ⟨branches, files⟩ := later (outHandleSysqueue world d file)
    rw [List.foldl_cons, branches, files]
    unfold outHandleSysqueue
    split <;> exact ⟨rfl, rfl⟩

theorem daemonRescanSysqueue_rest (world : EntryWorld) (found : List Scanned) (failed : Bool)
    (d : Daemon) :
    (d.daemonRescanSysqueue world found failed).branches = d.branches ∧
      (d.daemonRescanSysqueue world found failed).files = d.files := by
  obtain ⟨branches, files⟩ := foldl_outHandle_rest world found
    { d with systab := d.systab.map fun entry => { entry with flavors := 0, types := 0 } }
  unfold daemonRescanSysqueue
  dsimp only
  split
  · exact ⟨branches, files⟩
  · obtain ⟨branches', files'⟩ := removeLoop_rest
      (fun entry => decide (entry.types = 0) && decide (entry.flavors = 0)) _ 0
      (found.foldl (outHandleSysqueue world)
        { d with systab := d.systab.map fun entry => { entry with flavors := 0, types := 0 } })
    exact ⟨branches'.trans branches, files'.trans files⟩

/-- Reaping changes no call but the one it removes. -/
theorem reapBranch_branches (world : ReapWorld) (d : Daemon) :
    (d.reapBranch world).branches = d.branches ∨
      ∃ i, (d.reapBranch world).branches = d.branches.eraseIdx i := by
  unfold reapBranch
  split
  · exact .inl rfl
  · rename_i i first
    split
    · exact .inl rfl
    · rename_i branch there
      dsimp only
      generalize counted : { d with clients := _ } = middle
      have kept : (middle.daemonProcessRc world branch.addr).branches = d.branches := by
        rw [(daemonProcessRc_frame world branch.addr middle).branches, ← counted]
      refine .inr ⟨i, ?_⟩
      unfold daemonBranchRemove
      split
      · exact congrArg (List.eraseIdx · i) ((removeLoop_rest _ _ 0 _).1.trans kept)
      · exact congrArg (List.eraseIdx · i) kept

/-- What is left of the calls after an event that is no step of a queue. -/
theorem step_branches (d : Daemon) (event : DaemonEvent) (steps : ∀ which, event.moves which = false) :
    ((d.step event).called).Sublist d.called := by
  cases event with
  | rescan world found failed =>
    change (d.daemonRescanSysqueue world found failed).called.Sublist d.called
    unfold called
    rw [(d.daemonRescanSysqueue_rest world found failed).1]
  | exits pid rc =>
    unfold step
    dsimp only
    split
    · rename_i branches found
      unfold called
      dsimp only
      rw [daemonBranchExit_called pid rc d.branches branches found]
    · exact List.Sublist.refl _
  | reap world =>
    change (d.reapBranch world).called.Sublist d.called
    unfold called
    rcases d.reapBranch_branches world with same | ⟨i, erased⟩
    · rw [same]
    · rw [erased]
      exact (List.eraseIdx_sublist d.branches i).map _
  | queueDo which world => exact absurd (steps which) (by simp [DaemonEvent.moves])
  | restart maxClients => exact List.Sublist.refl _
  | elsewhere addr content => exact List.Sublist.refl _

/-- No event lets a system at the place of a queue be called. -/
theorem step_calm (d : Daemon) (event : DaemonEvent) (consistent : Consistent d) (calm : Calm d) :
    Calm (d.step event) := by
  have keeps := (d.step_keeps event consistent).2
  by_cases steps : ∀ which, event.moves which = false
  · exact calm.keeps (fun which => keeps which (steps which)) (d.step_branches event steps).subset
  · cases event with
    | queueDo which world =>
      unfold step
      dsimp only
      split
      · exact d.daemonQueueDo_calm world which consistent calm
      · exact calm
    | rescan | exits | reap | restart | elsewhere => exact absurd (fun _ => rfl) steps

/-- Nor does any run. -/
theorem after_calm (start : Daemon) (consistent : Consistent start) (calm : Calm start)
    (events : List DaemonEvent) : Calm (start.after events) := by
  induction events generalizing start with
  | nil => exact calm
  | cons event rest later =>
    exact later (start.step event) (start.step_keeps event consistent).1
      (start.step_calm event consistent calm)

/-! ## A system that is held is not called -/

section Holding

variable {system : Int × Int × Int × Int} {time : UInt64}

/-- What changes neither the systems and their status nor the file leaves the system held. -/
theorem Withheld.congr {d after : Daemon} (withheld : Withheld d system time)
    (files : after.files system = d.files system)
    (entries : ∀ entry ∈ after.systab, entry.system = system → time ≤ entry.stat.holdUntil ∨
      ∃ before ∈ d.systab, before.system = entry.system ∧ before.stat = entry.stat) :
    Withheld after system time := by
  refine ⟨files ▸ withheld.file, fun entry there same => ?_⟩
  rcases entries entry there same with held | ⟨before, found, is, stat⟩
  · exact held
  · exact stat ▸ withheld.entries before found (is.trans same)

/-- The decision about a system touches the file of no other. -/
theorem daemonNodeCancall_files (look : Look) (called : Bool) (files : StsFiles) (syst : SysEntry)
    (ignWtime tcpip : Bool) (other : Int × Int × Int × Int) (differs : other ≠ syst.system) :
    (daemonNodeCancall look called files syst ignWtime tcpip).2.2 other = files other := by
  have unhold : ∀ (access : StsAccess) (files : StsFiles) (entry : SysEntry) (freqs : Bool),
      entry.node = syst.node → (daemonUnholdSystem access files entry freqs).2 other = files other := by
    intro access files entry freqs same
    unfold daemonUnholdSystem sessionStatApplyDiff
    dsimp only
    split
    · rw [same]
      exact Function.update_of_ne differs _ _
    · rfl
  unfold daemonNodeCancall
  split
  · rfl
  · split
    · rfl
    · split
      · rfl
      · split
        · rfl
        · split
          · rfl
          · rename_i held changed passed
            have node := (passHold_same look files syst held changed passed).1
            have first : changed other = files other := by
              unfold passHold at passed
              split at passed
              · split at passed
                · cases passed
                  exact unhold look.unhold files syst false rfl
                · cases passed
              · cases passed
                rfl
            have second : (passFreqHold look changed held).2.2 other = changed other := by
              unfold passFreqHold
              split
              · split
                · exact unhold look.unholdFreqs changed held true node
                · rfl
              · rfl
            dsimp only
            split <;> exact second.trans first

/-- A system that is held past every reading of the clock is not chosen. -/
theorem cancall_withheld (looks : Nat → Look) (ignWtime tcpip : Bool) (pos : Nat) (syst : SysEntry)
    (d : Daemon) (there : d.systab[pos]? = some syst) (positive : 0 < time)
    (early : (looks pos).holdTime ≤ time) (withheld : Withheld d system time) :
    Withheld (d.cancall looks ignWtime tcpip pos syst).2 system time ∧
      ((d.cancall looks ignWtime tcpip pos syst).1 = true → syst.system ≠ system) := by
  have member := List.mem_of_getElem? there
  by_cases same : syst.system = system
  · have held := withheld.entries syst member same
    have stays : passHold (looks pos) d.files syst = none := by
      unfold passHold
      rw [if_pos (UInt64.lt_of_lt_of_le positive held),
        if_neg (UInt64.not_lt.mpr (UInt64.le_trans early held))]
    have refused : daemonNodeCancall (looks pos) (daemonBranchExist d.branches syst.node.addr) d.files
        syst ignWtime tcpip = (false, syst, d.files) := by
      unfold daemonNodeCancall
      rw [stays]
      dsimp only
      repeat' split
      all_goals rfl
    unfold cancall
    rw [refused]
    refine ⟨withheld.congr rfl fun entry found _ => .inr ⟨entry, ?_, rfl, rfl⟩, nofun⟩
    unfold put at found
    rcases List.mem_or_eq_of_mem_set found with old | rfl
    · exact old
    · exact member
  · refine ⟨withheld.congr (daemonNodeCancall_files (looks pos) _ d.files syst ignWtime
      tcpip system (Ne.symm same))
      fun entry found is => .inr ⟨entry, ?_, rfl, rfl⟩, fun _ => same⟩
    unfold cancall put at found
    rcases List.mem_or_eq_of_mem_set found with old | rfl
    · exact old
    · have node := (daemonNodeCancall_same (looks pos) (daemonBranchExist d.branches syst.node.addr)
        d.files syst ignWtime tcpip).1
      unfold SysEntry.system at is same
      rw [node] at is
      exact absurd is same

/-- Nor is it by the loops of `daemon_getnext`. -/
theorem getnextLoop_withheld (looks : Nat → Look) (tcpip : Bool) (positive : 0 < time)
    (early : ∀ pos, (looks pos).holdTime ≤ time) (places : List Nat) :
    ∀ (normal : Option Nat) (d : Daemon), Withheld d system time →
      denoted SysEntry.system d.systab normal ≠ some system →
      Withheld (d.getnextLoop looks tcpip places normal).2 system time ∧
        denoted SysEntry.system (d.getnextLoop looks tcpip places normal).2.systab
          (d.getnextLoop looks tcpip places normal).1 ≠ some system := by
  induction places with
  | nil => exact fun normal d withheld away => ⟨withheld, away⟩
  | cons place rest later =>
    intro normal d withheld away
    unfold getnextLoop
    split
    · exact later normal d withheld away
    · rename_i syst there
      have decides : ∀ ignWtime, Frame d (d.cancall looks ignWtime tcpip place syst).2 ∧
          Withheld (d.cancall looks ignWtime tcpip place syst).2 system time ∧
            ((d.cancall looks ignWtime tcpip place syst).1 = true →
              denoted SysEntry.system (d.cancall looks ignWtime tcpip place syst).2.systab
                (some place) ≠ some system) := by
        intro ignWtime
        obtain ⟨held, chosen⟩ := cancall_withheld looks ignWtime tcpip place syst d there positive
          (early place) withheld
        have frame := (d.cancall_frame looks ignWtime tcpip place syst there).1
        refine ⟨frame, held, fun answer here => chosen answer ?_⟩
        rw [denoted_congr frame.systems] at here
        unfold denoted at here
        rw [Option.bind_some, there, Option.map_some] at here
        exact Option.some.inj here
      dsimp only
      split
      · obtain ⟨frame, held, chosen⟩ := decides (hasType syst.flavors flavorImmed)
        split
        · rename_i answer
          exact ⟨held, chosen answer⟩
        · exact later normal _ held (by rw [denoted_congr frame.systems]; exact away)
      · split
        · obtain ⟨frame, held, chosen⟩ := decides false
          refine later _ _ held ?_
          split
          · rename_i answer
            exact chosen answer
          · exact nofun
        · exact later normal d withheld away

/-- The entry that is found is marked as busy. -/
def markFound (found : Option Nat × Daemon) : Option Nat × Daemon :=
  match found.1 with
  | some pos => (some pos, found.2.mark pos true)
  | none => (none, found.2)

/-- A step of a queue at which the clock is not past the hold neither calls the system nor
comes to it. -/
theorem daemonQueueDo_withheld (world : StepWorld) (which : Transport) (d : Daemon)
    (consistent : Consistent d) (positive : 0 < time)
    (early : ∀ pos, (world.looks pos).holdTime ≤ time) (withheld : Withheld d system time)
    (away : Away d system) :
    Withheld (d.daemonQueueDo world which) system time ∧ Away (d.daemonQueueDo world which) system ∧
      ∀ branch, (d.daemonQueueDo world which).branches = d.branches ++ [branch] →
        branch.addr.numbers ≠ system := by
  obtain ⟨table, queues⟩ := d.callCurrent_table world which
  obtain ⟨files, calls⟩ := d.callCurrent_calls world which
  have places : (d.callCurrent world which).2.currents = d.currents := by
    unfold currents
    rw [queues]
  have held : Withheld (d.callCurrent world which).2 system time :=
    withheld.congr (by rw [files]) fun entry there _ => .inr ⟨entry, table ▸ there, rfl, rfl⟩
  have still : Away (d.callCurrent world which).2 system := by
    intro other
    rw [table, places]
    exact away other
  have fine : Consistent (d.callCurrent world which).2 :=
    consistent.congr (by rw [table]) (by rw [table]) queues
  have started : ∀ branch, (d.callCurrent world which).2.branches = d.branches ++ [branch] →
      branch.addr.numbers ≠ system := by
    intro branch new same
    rcases calls with old | ⟨-, other, also, own⟩
    · rw [old] at new
      have := congrArg List.length new
      simp at this
    · rw [also] at new
      obtain rfl : other = branch := by simpa using new
      exact away which (same ▸ own)
  unfold daemonQueueDo
  dsimp only
  split
  · generalize (d.callCurrent world which).2 = called at held still fine started
    obtain ⟨after, systems, others, branches, -⟩ := called.selectNext_consistent world which fine
    have entries : ∀ (middle : Daemon) (pos : Nat) (busy : Bool), Withheld middle system time →
        Withheld (middle.mark pos busy) system time := by
      intro middle pos busy withheld
      refine withheld.congr rfl fun entry there _ => .inr ?_
      unfold mark at there
      obtain ⟨place, found⟩ := List.mem_iff_getElem?.mp there
      rw [List.getElem?_modify, Option.map_eq_map, Option.map_eq_some_iff] at found
      obtain ⟨before, was, rfl⟩ := found
      refine ⟨before, List.mem_of_getElem? was, ?_⟩
      split <;> exact ⟨rfl, rfl⟩
    have unlocked_held : Withheld (called.unlocked which) system time := by
      unfold unlocked
      split
      · exact entries called _ false held
      · exact held
    obtain ⟨chosen_held, chosen⟩ := getnextLoop_withheld world.looks which.isTcpip positive early
      ((List.range (called.unlocked which).systab.length).drop
          (((called.currents which).getD 0) + 1) ++
        (List.range (called.unlocked which).systab.length).take
          (((called.currents which).getD 0) + 1)) none (called.unlocked which) unlocked_held
      (by rintro ⟨⟩)
    have next : called.daemonGetnext2 world.looks which.isTcpip (called.queues which).current =
        markFound ((called.unlocked which).daemonGetnext world.looks which.isTcpip (called.currents which)) := rfl
    refine ⟨?_, ?_, fun branch new => started branch (branches ▸ new)⟩
    · unfold selectNext
      dsimp only
      rw [next]
      change Withheld ((called.unlocked which).daemonGetnext world.looks which.isTcpip
        (called.currents which)).2 system time at chosen_held
      generalize (called.unlocked which).daemonGetnext world.looks which.isTcpip
        (called.currents which) = result at chosen_held
      obtain ⟨place, found⟩ := result
      cases place with
      | none => exact ⟨chosen_held.file, chosen_held.entries⟩
      | some pos =>
        have marked := entries found pos true chosen_held
        exact ⟨marked.file, marked.entries⟩
    · intro other here
      by_cases same : other = which
      · subst same
        change denoted SysEntry.system ((called.unlocked other).daemonGetnext world.looks
          other.isTcpip (called.currents other)).2.systab ((called.unlocked other).daemonGetnext
          world.looks other.isTcpip (called.currents other)).1 ≠ some system at chosen
        unfold selectNext at here
        dsimp only at here
        rw [next, currents_update, Function.update_self] at here
        generalize (called.unlocked other).daemonGetnext world.looks other.isTcpip
          (called.currents other) = result at chosen here
        obtain ⟨place, found⟩ := result
        cases place with
        | none => cases here
        | some pos =>
          refine chosen (Eq.trans (Eq.symm ?_) here)
          exact denoted_congr (found.mark_systems pos true) (some pos)
      · refine still other ?_
        rw [← here]
        unfold currents
        rw [others other same, denoted_congr systems]
  · exact ⟨held, still, started⟩

/-- A scan fills new entries from the status files. -/
theorem daemonRescanSysqueue_withheld (world : EntryWorld) (found : List Scanned) (failed : Bool)
    (d : Daemon) (readable : ∀ addr, world.readable addr = true) (withheld : Withheld d system time) :
    Withheld (d.daemonRescanSysqueue world found failed) system time := by
  have scan : ∀ (found : List Scanned) (middle : Daemon), Withheld middle system time →
      Withheld (found.foldl (outHandleSysqueue world) middle) system time := by
    intro found
    induction found with
    | nil => exact fun _ held => held
    | cons file rest later =>
      intro middle held
      refine later _ ?_
      have stat : ∀ entry, (file.addTo entry).stat = entry.stat := by
        intro entry
        unfold Scanned.addTo
        split
        · rfl
        · split <;> rfl
      have is : ∀ entry, (file.addTo entry).system = entry.system := fun entry =>
        congrArg (fun node : Node => node.addr.numbers) (addTo_same file entry).1
      unfold outHandleSysqueue
      split
      · refine held.congr rfl fun entry there _ => .inr ?_
        obtain ⟨place, at_⟩ := List.mem_iff_getElem?.mp there
        rw [List.getElem?_modify, Option.map_eq_map, Option.map_eq_some_iff] at at_
        obtain ⟨before, was, rfl⟩ := at_
        refine ⟨before, List.mem_of_getElem? was, ?_⟩
        split
        · exact ⟨(is before).symm, (stat before).symm⟩
        · exact ⟨rfl, rfl⟩
      · refine held.congr rfl fun entry there same => ?_
        rcases List.mem_append.mp there with old | new
        · exact .inr ⟨entry, old, rfl, rfl⟩
        · obtain rfl := List.mem_singleton.mp new
          refine .inl ?_
          rw [is, (daemonSysentryInit_new world middle.files file.addr).1] at same
          rw [stat]
          have read : (daemonSysentryInit world middle.files file.addr).stat.holdUntil =
              (statOf (middle.files system)).holdUntil := by
            unfold daemonSysentryInit sessionStatGet
            dsimp only
            rw [readable, same]
            split <;> rfl
          exact read ▸ held.file
  have reset : Withheld
      { d with systab := d.systab.map fun entry => { entry with flavors := 0, types := 0 } } system
      time := by
    refine withheld.congr rfl fun entry there _ => .inr ?_
    obtain ⟨before, was, rfl⟩ := List.mem_map.mp there
    exact ⟨before, was, rfl, rfl⟩
  unfold daemonRescanSysqueue
  dsimp only
  split
  · exact scan found _ reset
  · have scanned := scan found _ reset
    exact scanned.congr (congrFun (removeLoop_rest _ _ 0 _).2 system) fun entry there _ =>
      .inr ⟨entry, removeLoop_subset _ _ 0 _ there, rfl, rfl⟩

/-- The entry that is found for an address. -/
theorem findIdx_system {d : Daemon} {addr : Faddr} {syst : SysEntry}
    (found : d.systab[d.systab.findIdx fun entry => ftnAddrcomp entry.node.addr addr]? = some syst) :
    syst.system = addr.numbers := by
  obtain ⟨inside, is⟩ := List.getElem?_eq_some_iff.mp found
  exact (ftnAddrcomp_iff _ _).mp (is ▸ List.findIdx_getElem (w := inside))

/-- What a call returned leaves a system held, and an action that fires holds its own. -/
theorem daemonProcessRc_withheld (world : ReapWorld) (addr : Faddr) (d : Daemon)
    (consistent : Consistent d) (readable : world.readable = true) (again : world.act.readable = true)
    (acts : ∀ syst act,
      d.systab[d.systab.findIdx fun entry => ftnAddrcomp entry.node.addr addr]? = some syst →
      world.conf.reached (sessionStatGet d.files world.readable addr) = some act →
        act.action = .holdsystem ∧ 1 < holdsUntil world act ∧ world.act.written = true) :
    (Withheld d system time → Withheld (d.daemonProcessRc world addr) system time) ∧
      ∀ syst act,
        d.systab[d.systab.findIdx fun entry => ftnAddrcomp entry.node.addr addr]? = some syst →
        world.conf.reached (sessionStatGet d.files world.readable addr) = some act →
          Withheld (d.daemonProcessRc world addr) syst.system (holdsUntil world act) := by
  unfold daemonProcessRc
  dsimp only
  split
  · rename_i absent
    exact ⟨id, fun syst act found => nomatch absent.symm.trans found⟩
  · rename_i syst found
    have own := findIdx_system found
    generalize pos_ : (d.systab.findIdx fun entry => ftnAddrcomp entry.node.addr addr) = pos at found acts
    split
    · rename_i act reached
      obtain ⟨holds, special, written⟩ := acts syst act found reached
      have diff : (triesDiff act world.actTime).holdUntil = holdsUntil world act := by
        unfold triesDiff
        rw [holds]
        rfl
      have usual : (triesDiff act world.actTime).holdUntil ≠ holdReset := by
        rw [diff]
        exact (UInt64.ne_of_lt special).symm
      obtain ⟨kept, set⟩ := updatedStsfile_holdUntil (triesDiff act world.actTime)
        (d.files syst.node.addr.numbers) usual
      have files : sessionStatApplyDiff d.files world.act.written syst.node.addr
          (triesDiff act world.actTime) = Function.update d.files syst.system
            (some (updatedStsfile (triesDiff act world.actTime) (d.files syst.system))) := by
        unfold sessionStatApplyDiff
        rw [written, if_pos rfl]
        rfl
      have inside := (List.getElem?_eq_some_iff.mp found).1
      constructor
      · intro withheld
        have file : time ≤ (statOf (sessionStatApplyDiff d.files world.act.written syst.node.addr
            (triesDiff act world.actTime) system)).holdUntil := by
          rw [files]
          by_cases same : system = syst.system
          · subst same
            rw [Function.update_self]
            exact UInt64.le_trans withheld.file kept
          · rw [Function.update_of_ne same]
            exact withheld.file
        refine ⟨file, fun entry there same => ?_⟩
        unfold daemonDoTriesAction put at there
        dsimp only at there
        rw [List.set_set] at there
        rcases List.mem_or_eq_of_mem_set there with old | rfl
        · exact withheld.entries entry old same
        · change syst.system = system at same
          subst same
          unfold sessionStatGet
          rw [again, if_pos rfl]
          exact file
      · intro other act' found' reached'
        obtain rfl := Option.some.inj (found.symm.trans found')
        obtain rfl := Option.some.inj (reached.symm.trans reached')
        have file : holdsUntil world act ≤ (statOf (sessionStatApplyDiff d.files world.act.written
            syst.node.addr (triesDiff act world.actTime) syst.system)).holdUntil := by
          rw [files, Function.update_self, ← diff]
          exact set
        refine ⟨file, fun entry there same => ?_⟩
        unfold daemonDoTriesAction put at there
        dsimp only at there
        rw [List.set_set] at there
        obtain ⟨place, at_⟩ := List.mem_iff_getElem?.mp there
        rw [List.getElem?_set] at at_
        split at at_
        · obtain rfl := Option.some.inj at_
          unfold sessionStatGet
          rw [again, if_pos rfl]
          exact file
        · rename_i away
          have systems : (d.systab.map SysEntry.system)[place]? =
              (d.systab.map SysEntry.system)[pos]? := by
            rw [List.getElem?_map, List.getElem?_map, at_, found, Option.map_some, Option.map_some, same]
          exact absurd ((List.getElem?_inj (by rwa [List.length_map]) consistent.distinct).mp
            systems.symm) away
    · rename_i quiet
      refine ⟨fun withheld => ⟨withheld.file, fun entry there same => ?_⟩,
        fun _ act _ reached => nomatch quiet.symm.trans reached⟩
      rcases List.mem_or_eq_of_mem_set there with old | rfl
      · exact withheld.entries entry old same
      · change syst.system = system at same
        change time ≤ (sessionStatGet d.files world.readable addr).holdUntil
        unfold sessionStatGet
        rw [readable, if_pos rfl, ← own, same]
        exact withheld.file

/-- Reaping leaves a system held, and holds the one whose action fires. -/
theorem reapBranch_withheld (world : ReapWorld) (d : Daemon) (consistent : Consistent d)
    (governed : d.Governed (.reap world)) :
    (Withheld d system time → Withheld (d.reapBranch world) system time) ∧
      ∀ syst act, d.fired world = some (syst, act) →
        Withheld (d.reapBranch world) syst.system (holdsUntil world act) ∧ syst.system ∈ d.called := by
  obtain ⟨readable, again, acts⟩ := governed
  unfold fired at acts ⊢
  unfold reapBranch
  cases first : daemonBranchGetFirstWaiting d.branches with
  | none => exact ⟨id, fun syst act same => by simp at same⟩
  | some i =>
    rw [first] at acts
    dsimp only [Option.bind_eq_bind, Option.bind_some] at acts ⊢
    cases there : d.branches[i]? with
    | none => exact ⟨id, fun syst act same => by simp at same⟩
    | some branch =>
      rw [there] at acts
      dsimp only [Option.bind_some] at acts ⊢
      generalize counted : { d with clients := _ } = middle
      have table : middle.systab = d.systab := by rw [← counted]
      have files : middle.files = d.files := by rw [← counted]
      have queues : middle.queues = d.queues := by rw [← counted]
      have fine : Consistent middle := consistent.congr (by rw [table]) (by rw [table]) queues
      have fires : ∀ syst act,
          middle.systab[middle.systab.findIdx fun entry =>
            ftnAddrcomp entry.node.addr branch.addr]? = some syst →
          world.conf.reached (sessionStatGet middle.files world.readable branch.addr) = some act →
            act.action = .holdsystem ∧ 1 < holdsUntil world act ∧ world.act.written = true := by
        intro syst act found reached
        rw [table] at found
        rw [files] at reached
        exact acts syst act (by rw [found, Option.bind_some, reached]; rfl)
      obtain ⟨keeps, holds⟩ := @daemonProcessRc_withheld system time world
        branch.addr middle fine readable again fires
      have removed : ∀ {system : Int × Int × Int × Int} {time : UInt64} (after : Daemon),
          Withheld after system time → Withheld { (if branch.rc = 0 then
              after.removeSystems fun entry => ftnAddrcomp branch.addr entry.node.addr else after) with
            branches := daemonBranchRemove (if branch.rc = 0 then
              after.removeSystems fun entry => ftnAddrcomp branch.addr entry.node.addr
              else after).branches i } system time := by
        intro system time after held
        split
        · exact held.congr (congrFun (removeLoop_rest _ _ 0 _).2 system) fun entry there _ =>
            .inr ⟨entry, removeLoop_subset _ _ 0 _ there, rfl, rfl⟩
        · exact ⟨held.file, held.entries⟩
      refine ⟨fun withheld => removed _ (keeps ⟨files ▸ withheld.file, table ▸ withheld.entries⟩),
        fun syst act same => ?_⟩
      rw [Option.bind_eq_some_iff] at same
      obtain ⟨entry, found, same⟩ := same
      rw [Option.bind_eq_some_iff] at same
      obtain ⟨tries, reached, same⟩ := same
      obtain ⟨rfl, rfl⟩ := Prod.mk.inj (Option.some.inj same)
      refine ⟨removed _ (holds entry tries (table ▸ found) (files ▸ reached)), ?_⟩
      rw [findIdx_system found]
      exact List.mem_map_of_mem (List.mem_of_getElem? there)

/-- No event calls a system that is held, or ends the hold, before the clock is past it. -/
theorem step_withheld (d : Daemon) (event : DaemonEvent) (consistent : Consistent d)
    (governed : d.Governed event) (positive : 0 < time) (early : ¬ event.ReadsPast time)
    (withheld : Withheld d system time) (away : Away d system) :
    Withheld (d.step event) system time ∧ Away (d.step event) system ∧
      ¬ d.StartsCall event system := by
  have keeps := (d.step_keeps event consistent).2
  have quiet : (∀ which, event.moves which = false) → ¬ d.StartsCall event system := by
    rintro steps ⟨branch, new, -⟩
    have fewer := (d.step_branches event steps).length_le
    unfold called at fewer
    rw [new, List.length_map, List.length_map, List.length_append] at fewer
    simp at fewer
  cases event with
  | rescan world found failed =>
    exact ⟨d.daemonRescanSysqueue_withheld world found failed governed withheld,
      away.keeps fun which => keeps which rfl, quiet fun _ => rfl⟩
  | exits pid rc =>
    refine ⟨?_, away.keeps fun which => keeps which rfl, quiet fun _ => rfl⟩
    unfold step
    dsimp only
    split
    · exact ⟨withheld.file, withheld.entries⟩
    · exact withheld
  | reap world =>
    exact ⟨(d.reapBranch_withheld world consistent governed).1 withheld,
      away.keeps fun which => keeps which rfl, quiet fun _ => rfl⟩
  | queueDo which world =>
    have soon : ∀ pos, (world.looks pos).holdTime ≤ time := fun pos =>
      UInt64.not_lt.mp fun late => early (.inr ⟨pos, late⟩)
    unfold StartsCall step
    dsimp only
    split
    · obtain ⟨held, still, starts⟩ :=
        d.daemonQueueDo_withheld world which consistent positive soon withheld away
      exact ⟨held, still, fun ⟨branch, new, same⟩ => starts branch new same⟩
    · exact ⟨withheld, away, fun ⟨branch, new, _⟩ => by simp at new⟩
  | restart maxClients =>
    exact ⟨⟨withheld.file, fun entry there => absurd there List.not_mem_nil⟩,
      away.keeps fun which => keeps which rfl, quiet fun _ => rfl⟩
  | elsewhere addr content =>
    refine ⟨⟨?_, withheld.entries⟩, away.keeps fun which => keeps which rfl, quiet fun _ => rfl⟩
    change time ≤ (statOf (Function.update d.files addr.numbers content system)).holdUntil
    by_cases same : system = addr.numbers
    · subst same
      rw [Function.update_self]
      exact UInt64.le_trans withheld.file governed
    · rw [Function.update_of_ne same]
      exact withheld.file

/-- Nor does a run. -/
theorem after_withheld (positive : 0 < time) (last : DaemonEvent) (more : List DaemonEvent) :
    ∀ d : Daemon, Consistent d → Along Governed turn d (more ++ [last]) →
      (∀ event ∈ more ++ [last], ¬ event.ReadsPast time) → Withheld d system time →
      Away d system → ¬ (d.after more).StartsCall last system := by
  induction more with
  | nil =>
    intro d consistent governed early withheld away
    exact (d.step_withheld last consistent governed.1 positive (early last List.mem_cons_self)
      withheld away).2.2
  | cons event rest later =>
    intro d consistent governed early withheld away
    obtain ⟨held, still, -⟩ := d.step_withheld event consistent governed.1 positive
      (early event List.mem_cons_self) withheld away
    exact later (d.step event) (d.step_keeps event consistent).1 governed.2
      (fun other member => early other (List.mem_cons_of_mem _ member)) held still

end Holding

/-- After an action fires in a run of the daemon, at whatever event, no call is started in
the state that it announces, if all goes by the condition from then on. -/
theorem actions_respected (maxClients : Transport → Int) (files : StsFiles)
    (events more : List DaemonEvent) (world : ReapWorld) (last : DaemonEvent)
    (governed : Along Governed turn ((starts maxClients files).after events)
      (.reap world :: (more ++ [last])))
    (syst : SysEntry) (act : Tries)
    (fires : ((starts maxClients files).after events).fired world = some (syst, act)) :
    Respects act (holdsUntil world act) syst.system
      (((starts maxClients files).after events).step (.reap world)) more last := by
  have consistent := after_consistent (starts maxClients files) (starts_consistent _ _) events
  have calm : Calm ((starts maxClients files).after events) :=
    after_calm _ (starts_consistent _ _) (fun which system here => nomatch here) events
  generalize (starts maxClients files).after events = d at governed fires consistent calm
  obtain ⟨now, then_⟩ := governed
  obtain ⟨holds, special, -⟩ := now.2.2 syst act fires
  obtain ⟨withheld, called⟩ :=
    (@reapBranch_withheld syst.system 0 world d consistent now).2 syst act fires
  have away : Away d syst.system := fun which here => calm which syst.system here called
  unfold Respects
  rw [holds]
  intro starts
  by_contra early
  refine after_withheld (UInt64.lt_of_le_of_lt (by decide) special) last more _
    (d.step_keeps (.reap world) consistent).1 then_ (fun event member past => early
      ⟨event, member, past⟩) withheld
    (away.keeps fun which => (d.step_keeps (.reap world) consistent).2 which rfl) starts

/-- A system with mail. -/
def mailSystem : Faddr := { zone := 2, net := 5020, node := 1 }

/-- Its entry in the nodelist. -/
def mailNode : Node := { addr := {}, phone := ascii "1", worktime := [⟨0, 6, 0, 1440⟩] }

/-- The daemon starts with one client of a kind allowed. -/
def oneClient : Daemon := starts (fun _ => 1) fun _ => none

/-- Its first call fails. -/
def firstCall : List DaemonEvent :=
  [.elsewhere mailSystem (some (ascii "1 0 0 0 0 0 0 0 0 0")),
    .rescan { nodelist := fun _ => some mailNode } [⟨mailSystem, typeNetmail, flavorCrash⟩] false,
    .queueDo .modem {},
    .queueDo .modem { call := { fork := some 5 } },
    .exits 5 10]

/-- What is done after one try. -/
def afterOneTry (action : TriesAction) : Tries := ⟨1, action, 1000⟩

/-- The call is reaped. -/
def reapFirst (action : TriesAction) : ReapWorld :=
  { finish := 10, actTime := 10, conf := { maxtries := some (afterOneTry action) } }

/-- Another step of the queue, and one at which it may call. -/
def secondCall : DaemonEvent := .queueDo .modem { time := 20, call := { fork := some 6 } }

/-- The action fires for the system. -/
theorem fired_first (action : TriesAction) :
    ∃ syst, (oneClient.after firstCall).fired (reapFirst action) = some (syst, afterOneTry action) ∧
      syst.system = mailSystem.numbers := by
  have found : ((oneClient.after firstCall).fired (reapFirst action)).map
      (fun both => (both.1.system, both.2)) = some (mailSystem.numbers, afterOneTry action) := by
    cases action <;> decide
  rw [Option.map_eq_some_iff] at found
  obtain ⟨⟨syst, act⟩, fires, same⟩ := found
  obtain ⟨system, rfl⟩ := Prod.mk.inj same
  exact ⟨syst, fires, system⟩

theorem actions_respected_hold : ∃ syst,
    (oneClient.after firstCall).fired (reapFirst .holdsystem) =
      some (syst, afterOneTry .holdsystem) ∧
    Respects (afterOneTry .holdsystem) 1010 syst.system
      ((oneClient.after firstCall).step (.reap (reapFirst .holdsystem))) [.queueDo .modem {}]
      secondCall := by
  obtain ⟨syst, fires, -⟩ := fired_first .holdsystem
  refine ⟨syst, fires, actions_respected (fun _ => 1) (fun _ => none) firstCall
    [.queueDo .modem {}] (reapFirst .holdsystem) secondCall
    ⟨⟨rfl, rfl, fun other act found => ?_⟩, trivial, trivial, trivial⟩ syst _ fires⟩
  obtain ⟨-, rfl⟩ := Prod.mk.inj (Option.some.inj (found.symm.trans fires))
  exact ⟨rfl, by decide, rfl⟩

/-- The action fires, and a call is started in the state that it announces. -/
def Unheeded (action : TriesAction) : Prop :=
  ∃ syst, (oneClient.after firstCall).fired (reapFirst action) = some (syst, afterOneTry action) ∧
    ¬ Respects (afterOneTry action) (holdsUntil (reapFirst action) (afterOneTry action)) syst.system
      ((oneClient.after firstCall).step (.reap (reapFirst action))) [.queueDo .modem {}] secondCall

theorem undialable_unheeded : Unheeded .undialable ∧ Unheeded .holdall := by
  constructor
  · obtain ⟨syst, fires, system⟩ := fired_first .undialable
    refine ⟨syst, fires, fun respects => ?_⟩
    obtain ⟨event, member, resets⟩ := respects
      ⟨⟨mailSystem, false, false, 6, 0⟩, by decide, system.symm⟩
    obtain rfl := List.mem_singleton.mp member
    cases resets
  · obtain ⟨syst, fires, system⟩ := fired_first .holdall
    refine ⟨syst, fires, fun respects => ?_⟩
    obtain ⟨event, member, past⟩ := respects mailSystem.numbers
      ⟨⟨mailSystem, false, false, 6, 0⟩, by decide, rfl⟩
    have until_ : holdsUntil (reapFirst .holdall) (afterOneTry .holdall) = 1010 := by decide
    rw [until_] at past
    rcases List.mem_pair.mp member with rfl | rfl
    · rcases past with late | ⟨_, late⟩
      · exact absurd late (by decide)
      · exact absurd (show (1010 : UInt64) < 0 from late) (by decide)
    · rcases past with late | ⟨_, late⟩
      · exact absurd late (by decide)
      · exact absurd (show (1010 : UInt64) < 0 from late) (by decide)

end Daemon

end Binkleyforce
