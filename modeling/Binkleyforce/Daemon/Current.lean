import Binkleyforce.Daemon.Queues
import Binkleyforce.Library.Cursors

/-!
# The current systems of the queues

Systems come and go while two queues are at places of the table. Every function that
changes the table repairs the places and the marks: each current system stays the same one
until its queue moves on, and it is marked busy for that long.
-/

namespace Binkleyforce

open Library

/-- The system of an entry. -/
def SysEntry.system (entry : SysEntry) : Int × Int × Int × Int := entry.node.addr.numbers

namespace Daemon

/-- The places of the two queues. -/
def currents (d : Daemon) (which : Transport) : Option Nat := (d.queues which).current

/-- The queues are at places of the table with the marks, and no system is in it twice. -/
structure Consistent (d : Daemon) : Prop where
  marked : Marked SysEntry.busy d.systab d.currents
  distinct : (d.systab.map SysEntry.system).Nodup

/-- The current system of a queue is still the same, or it is gone from the table. -/
def KeepsCurrent (d after : Daemon) (which : Transport) : Prop :=
  Keeps SysEntry.system d.systab after.systab (d.currents which) (after.currents which)

/-- Neither the systems of the table, nor their marks, nor the queues or the calls change. -/
structure Frame (d after : Daemon) : Prop where
  systems : after.systab.map SysEntry.system = d.systab.map SysEntry.system
  marks : after.systab.map SysEntry.busy = d.systab.map SysEntry.busy
  queues : after.queues = d.queues
  branches : after.branches = d.branches

theorem Frame.refl (d : Daemon) : Frame d d := ⟨rfl, rfl, rfl, rfl⟩

theorem Frame.trans {d middle after : Daemon} (first : Frame d middle) (second : Frame middle after) :
    Frame d after :=
  ⟨second.systems.trans first.systems, second.marks.trans first.marks,
    second.queues.trans first.queues, second.branches.trans first.branches⟩

/-- What changes neither systems nor marks nor queues leaves all in order. -/
theorem Consistent.congr {d after : Daemon} (consistent : Consistent d)
    (systems : after.systab.map SysEntry.system = d.systab.map SysEntry.system)
    (marks : after.systab.map SysEntry.busy = d.systab.map SysEntry.busy)
    (queues : after.queues = d.queues) : Consistent after := by
  refine ⟨?_, systems ▸ consistent.distinct⟩
  unfold currents
  rw [queues]
  exact consistent.marked.congr marks

/-- And the current systems as they are. -/
theorem keepsCurrent_congr {d after : Daemon}
    (systems : after.systab.map SysEntry.system = d.systab.map SysEntry.system)
    (queues : after.queues = d.queues) (which : Transport) : KeepsCurrent d after which := by
  refine .inl ?_
  unfold currents
  rw [queues, denoted_congr systems]

/-- An entry changes to one of the same system with the same mark. -/
theorem put_frame (d : Daemon) (pos : Nat) (entry : SysEntry)
    (same : ∀ before, d.systab[pos]? = some before →
      entry.system = before.system ∧ entry.busy = before.busy) : Frame d (d.put pos entry) := by
  have keeps : ∀ {β : Type} (field : SysEntry → β),
      (∀ before, d.systab[pos]? = some before → field entry = field before) →
        (d.systab.set pos entry).map field = d.systab.map field := by
    intro β field agrees
    rw [List.map_set]
    by_cases inside : pos < d.systab.length
    · rw [agrees d.systab[pos] (List.getElem?_eq_getElem inside)]
      exact List.ext_getElem? fun place => by
        rw [List.getElem?_set, List.getElem?_map]
        split
        · rename_i here
          subst here
          rw [if_pos (by rwa [List.length_map]), List.getElem?_eq_getElem inside]
          rfl
        · rfl
    · rw [List.set_eq_of_length_le (by rw [List.length_map]; omega)]
  exact ⟨keeps _ fun before there => (same before there).1,
    keeps _ fun before there => (same before there).2, rfl, rfl⟩

/-! ## The decision to call -/

theorem passHold_same (look : Look) (files : StsFiles) (syst after : SysEntry) (changed : StsFiles)
    (passed : passHold look files syst = some (after, changed)) :
    after.node = syst.node ∧ after.busy = syst.busy := by
  unfold passHold at passed
  split at passed
  · split at passed
    · cases passed
      exact ⟨rfl, rfl⟩
    · cases passed
  · cases passed
    exact ⟨rfl, rfl⟩

theorem passFreqHold_same (look : Look) (files : StsFiles) (syst : SysEntry) :
    (passFreqHold look files syst).2.1.node = syst.node ∧
      (passFreqHold look files syst).2.1.busy = syst.busy := by
  unfold passFreqHold
  split
  · split <;> exact ⟨rfl, rfl⟩
  · exact ⟨rfl, rfl⟩

theorem chooseLine_same (look : Look) (syst : SysEntry) (tcpip : Bool) :
    (chooseLine look syst tcpip).2.node = syst.node ∧
      (chooseLine look syst tcpip).2.busy = syst.busy := by
  unfold chooseLine
  split
  · exact ⟨rfl, rfl⟩
  · split
    · exact ⟨rfl, rfl⟩
    · dsimp only
      split <;> exact ⟨rfl, rfl⟩

/-- The decision leaves the system and its mark, and only a system that is free and is not
called yet is chosen. -/
theorem daemonNodeCancall_same (look : Look) (called : Bool) (files : StsFiles) (syst : SysEntry)
    (ignWtime tcpip : Bool) :
    (daemonNodeCancall look called files syst ignWtime tcpip).2.1.node = syst.node ∧
      (daemonNodeCancall look called files syst ignWtime tcpip).2.1.busy = syst.busy ∧
      ((daemonNodeCancall look called files syst ignWtime tcpip).1 = true →
        syst.busy = false ∧ called = false) := by
  unfold daemonNodeCancall
  split
  · exact ⟨rfl, rfl, nofun⟩
  · rename_i free
    split
    · exact ⟨rfl, rfl, nofun⟩
    · split
      · exact ⟨rfl, rfl, nofun⟩
      · rename_i quiet
        split
        · exact ⟨rfl, rfl, nofun⟩
        · split
          · exact ⟨rfl, rfl, nofun⟩
          · rename_i held changed passed
            obtain ⟨node, busy⟩ := passHold_same look files syst held changed passed
            obtain ⟨node', busy'⟩ := passFreqHold_same look changed held
            have found : syst.busy = false ∧ called = false :=
              ⟨Bool.eq_false_iff.mpr free, Bool.eq_false_iff.mpr quiet⟩
            dsimp only
            split
            · obtain ⟨node'', busy''⟩ :=
                chooseLine_same look (passFreqHold look changed held).2.1 tcpip
              exact ⟨node''.trans (node'.trans node), busy''.trans (busy'.trans busy), fun _ => found⟩
            · exact ⟨node'.trans node, busy'.trans busy, nofun⟩

/-- The place has a system that is free and is not called. -/
def Free (d : Daemon) (pos : Nat) : Prop :=
  ∃ entry, d.systab[pos]? = some entry ∧ entry.busy = false ∧
    daemonBranchExist d.branches entry.node.addr = false

/-- A call to a system is one to each of its addresses. -/
theorem daemonBranchExist_congr (branches : List Branch) {addr other : Faddr}
    (same : addr.numbers = other.numbers) :
    daemonBranchExist branches addr = daemonBranchExist branches other := by
  unfold daemonBranchExist
  congr 1
  funext branch
  rw [Bool.eq_iff_iff, ftnAddrcomp_iff, ftnAddrcomp_iff, same]

/-- A place that is free stays so. -/
theorem Frame.free {d after : Daemon} (frame : Frame d after) {pos : Nat} (free : Free d pos) :
    Free after pos := by
  obtain ⟨entry, there, idle, quiet⟩ := free
  have system : (after.systab.map SysEntry.system)[pos]? = some entry.system := by
    rw [frame.systems, List.getElem?_map, there, Option.map_some]
  have mark : (after.systab.map SysEntry.busy)[pos]? = some entry.busy := by
    rw [frame.marks, List.getElem?_map, there, Option.map_some]
  rw [List.getElem?_map, Option.map_eq_some_iff] at system mark
  obtain ⟨now, found, same⟩ := system
  obtain ⟨also, found', busy⟩ := mark
  obtain rfl := Option.some.inj (found'.symm.trans found)
  refine ⟨also, found, busy.trans idle, ?_⟩
  rw [frame.branches, daemonBranchExist_congr _ same]
  exact quiet

/-- The decision about a system, as a step of the daemon. -/
theorem cancall_frame (d : Daemon) (looks : Nat → Look) (ignWtime tcpip : Bool) (pos : Nat)
    (syst : SysEntry) (there : d.systab[pos]? = some syst) :
    Frame d (d.cancall looks ignWtime tcpip pos syst).2 ∧
      ((d.cancall looks ignWtime tcpip pos syst).1 = true → Free d pos) := by
  obtain ⟨node, busy, chosen⟩ := daemonNodeCancall_same (looks pos)
    (daemonBranchExist d.branches syst.node.addr) d.files syst ignWtime tcpip
  have kept := d.put_frame pos (daemonNodeCancall (looks pos)
    (daemonBranchExist d.branches syst.node.addr) d.files syst ignWtime tcpip).2.1 fun before was => by
      obtain rfl := Option.some.inj (there.symm.trans was)
      exact ⟨by unfold SysEntry.system; rw [node], busy⟩
  refine ⟨⟨kept.systems, kept.marks, rfl, rfl⟩, fun answer => ?_⟩
  obtain ⟨idle, quiet⟩ := chosen answer
  exact ⟨syst, there, idle, quiet⟩

/-- The loops of `daemon_getnext` choose a free system. -/
theorem getnextLoop_free (looks : Nat → Look) (tcpip : Bool) (places : List Nat) :
    ∀ (normal : Option Nat) (d : Daemon), (∀ pos, normal = some pos → Free d pos) →
      Frame d (d.getnextLoop looks tcpip places normal).2 ∧
        ∀ pos, (d.getnextLoop looks tcpip places normal).1 = some pos →
          Free (d.getnextLoop looks tcpip places normal).2 pos := by
  induction places with
  | nil => exact fun normal d free => ⟨.refl d, free⟩
  | cons place rest later =>
    intro normal d free
    unfold getnextLoop
    split
    · exact later normal d free
    · rename_i syst there
      dsimp only
      split
      · obtain ⟨frame, chosen⟩ :=
          d.cancall_frame looks (hasType syst.flavors flavorImmed) tcpip place syst there
        split
        · rename_i answer
          refine ⟨frame, fun pos same => ?_⟩
          obtain rfl := Option.some.inj same
          exact frame.free (chosen answer)
        · obtain ⟨further, found⟩ := later normal _ fun pos same => frame.free (free pos same)
          exact ⟨frame.trans further, found⟩
      · split
        · obtain ⟨frame, chosen⟩ := d.cancall_frame looks false tcpip place syst there
          obtain ⟨further, found⟩ := later
            (if (d.cancall looks false tcpip place syst).1 then some place else none)
            (d.cancall looks false tcpip place syst).2 fun pos same => by
              split at same
              · rename_i answer
                obtain rfl := Option.some.inj same
                exact frame.free (chosen answer)
              · cases same
          exact ⟨frame.trans further, found⟩
        · exact later normal d free

/-! ## A queue moves on -/

/-- The marks of a place, set or cleared, change no system. -/
theorem mark_systems (d : Daemon) (pos : Nat) (busy : Bool) :
    (d.mark pos busy).systab.map SysEntry.system = d.systab.map SysEntry.system := by
  unfold mark
  refine List.ext_getElem? fun place => ?_
  rw [List.getElem?_map, List.getElem?_modify, List.getElem?_map]
  cases d.systab[place]? with
  | none => rfl
  | some entry =>
    dsimp only [Option.map_eq_map, Option.map_some]
    split <;> rfl

/-- The first system of `daemon_getnext` is free. -/
theorem daemonGetnext_free (looks : Nat → Look) (tcpip : Bool) (current : Option Nat) (d : Daemon) :
    Frame d (d.daemonGetnext looks tcpip current).2 ∧
      ∀ pos, (d.daemonGetnext looks tcpip current).1 = some pos →
        Free (d.daemonGetnext looks tcpip current).2 pos :=
  d.getnextLoop_free looks tcpip _ none fun _ same => nomatch same

/-- What is set of a queue is what its place is. -/
theorem currents_update (d : Daemon) (which : Transport) (queue : DaemonQueue) :
    currents { d with queues := Function.update d.queues which queue } =
      Function.update d.currents which queue.current := by
  funext other
  unfold currents
  by_cases same : other = which
  · subst same
    dsimp only
    rw [Function.update_self, Function.update_self]
  · dsimp only
    rw [Function.update_of_ne same, Function.update_of_ne same]

/-- `daemon_getnext2` clears the mark of the place, and looks for the next one. -/
def unlocked (d : Daemon) (which : Transport) : Daemon :=
  match d.currents which with
  | some pos => d.mark pos false
  | none => d

/-- Without its place and its mark, all is in order but for the queue. -/
theorem unlocked_marked (d : Daemon) (which : Transport) (consistent : Consistent d) :
    Marked SysEntry.busy (d.unlocked which).systab (Function.update d.currents which none) ∧
      (d.unlocked which).systab.map SysEntry.system = d.systab.map SysEntry.system ∧
      (d.unlocked which).queues = d.queues ∧ (d.unlocked which).branches = d.branches := by
  unfold unlocked
  cases at_ : d.currents which with
  | none =>
    refine ⟨?_, rfl, rfl, rfl⟩
    rw [Function.update_eq_self_iff.mpr at_.symm]
    exact consistent.marked
  | some pos =>
    exact ⟨consistent.marked.leave which (fun entry => { entry with busy := false })
      (fun _ => rfl) pos at_, d.mark_systems pos false, rfl, rfl⟩

/-- The queue moves on to a free system, or to none. -/
theorem selectNext_consistent (world : StepWorld) (which : Transport) (d : Daemon)
    (consistent : Consistent d) :
    Consistent (d.selectNext world which) ∧
      (d.selectNext world which).systab.map SysEntry.system = d.systab.map SysEntry.system ∧
      (∀ other, other ≠ which → (d.selectNext world which).queues other = d.queues other) ∧
      (d.selectNext world which).branches = d.branches ∧
      ∀ pos, (d.selectNext world which).currents which = some pos →
        ∃ entry, (d.selectNext world which).systab[pos]? = some entry ∧
          daemonBranchExist d.branches entry.node.addr = false := by
  obtain ⟨marked, systems, queues, branches⟩ := d.unlocked_marked which consistent
  obtain ⟨frame, free⟩ := daemonGetnext_free world.looks which.isTcpip (d.currents which)
    (d.unlocked which)
  have steady := marked.congr frame.marks
  have all := frame.systems.trans systems
  have still := frame.queues.trans queues
  have calls := frame.branches.trans branches
  have next : d.daemonGetnext2 world.looks which.isTcpip (d.queues which).current =
      match ((d.unlocked which).daemonGetnext world.looks which.isTcpip (d.currents which)).1 with
      | some pos => (some pos,
        ((d.unlocked which).daemonGetnext world.looks which.isTcpip (d.currents which)).2.mark pos
          true)
      | none =>
        (none, ((d.unlocked which).daemonGetnext world.looks which.isTcpip (d.currents which)).2) :=
    rfl
  unfold selectNext
  dsimp only
  rw [next]
  generalize (d.unlocked which).daemonGetnext world.looks which.isTcpip (d.currents which) = result
    at frame free steady all still calls
  obtain ⟨chosen, after⟩ := result
  cases chosen with
  | none =>
    dsimp only at frame free steady all still calls ⊢
    refine ⟨⟨?_, all ▸ consistent.distinct⟩, all, fun other away => ?_, calls, fun pos here => ?_⟩
    · rw [currents_update]
      unfold currents
      rw [still]
      exact steady
    · rw [Function.update_of_ne away, still]
    · rw [currents_update, Function.update_self] at here
      cases here
  | some pos =>
    dsimp only at frame free steady all still calls ⊢
    obtain ⟨entry, there, idle, quiet⟩ := free pos rfl
    have entered := steady.enter which (fun entry => { entry with busy := true }) (fun _ => rfl)
      (Function.update_self _ _ _) pos entry there idle
    rw [Function.update_idem] at entered
    have same := (after.mark_systems pos true).trans all
    refine ⟨⟨?_, same ▸ consistent.distinct⟩, same, fun other away => ?_, calls, fun place here => ?_⟩
    · rw [currents_update]
      unfold currents
      rw [show (after.mark pos true).queues = d.queues from still]
      exact entered
    · rw [Function.update_of_ne away]
      exact congrFun still other
    · rw [currents_update, Function.update_self] at here
      obtain rfl := Option.some.inj here
      refine ⟨{ entry with busy := true }, ?_, calls ▸ quiet⟩
      unfold mark
      rw [List.getElem?_modify, there]
      dsimp only [Option.map_eq_map, Option.map_some]
      rw [if_pos rfl]

/-- A call changes neither the table nor the queues. -/
theorem daemonCall_table (world : CallWorld) (syst : SysEntry) (d : Daemon) :
    (d.daemonCall world syst).2.systab = d.systab ∧ (d.daemonCall world syst).2.queues = d.queues := by
  unfold daemonCall
  dsimp only
  generalize (if syst.tcpip = true then Transport.tcpip else Transport.modem) = transport
  split
  · exact ⟨rfl, rfl⟩
  · split
    · exact ⟨rfl, rfl⟩
    · split
      · exact ⟨rfl, rfl⟩
      · split <;> exact ⟨rfl, rfl⟩

theorem callCurrent_table (world : StepWorld) (which : Transport) (d : Daemon) :
    (d.callCurrent world which).2.systab = d.systab ∧
      (d.callCurrent world which).2.queues = d.queues := by
  unfold callCurrent
  split
  · exact ⟨rfl, rfl⟩
  · split
    · exact ⟨rfl, rfl⟩
    · split
      · split
        · exact ⟨rfl, rfl⟩
        · exact d.daemonCall_table world.call _
      · exact ⟨rfl, rfl⟩

/-- A step of a queue leaves all in order, and the other queue where it is. -/
theorem daemonQueueDo_keeps (world : StepWorld) (which : Transport) (d : Daemon)
    (consistent : Consistent d) :
    Consistent (d.daemonQueueDo world which) ∧
      ∀ other, other ≠ which → KeepsCurrent d (d.daemonQueueDo world which) other := by
  obtain ⟨table, queues⟩ := d.callCurrent_table world which
  have called : Consistent (d.callCurrent world which).2 :=
    consistent.congr (by rw [table]) (by rw [table]) queues
  unfold daemonQueueDo
  dsimp only
  split
  · obtain ⟨after, systems, away, -, -⟩ :=
      (d.callCurrent world which).2.selectNext_consistent world which called
    refine ⟨after, fun other differs => .inl ?_⟩
    unfold currents
    rw [away other differs, queues, denoted_congr (systems.trans (by rw [table]))]
  · exact ⟨called, fun other _ => keepsCurrent_congr (by rw [table]) queues other⟩

/-! ## Systems go -/

theorem updateCurrent_current (pos : Nat) (queue : DaemonQueue) :
    (updateCurrent pos queue).current = repair pos queue.current := by
  unfold updateCurrent repair
  cases at_ : queue.current with
  | none => exact at_
  | some current =>
    dsimp only [Option.bind_some]
    split
    · rfl
    · split
      · rfl
      · exact at_

/-- The places after a system was removed. -/
theorem removeSystem_currents (pos : Nat) (d : Daemon) :
    (d.removeSystem pos).currents = fun which => repair pos (d.currents which) :=
  funext fun which => updateCurrent_current pos (d.queues which)

/-- A system goes. -/
theorem removeSystem_keeps (pos : Nat) (d : Daemon) (consistent : Consistent d)
    (there : pos < d.systab.length) :
    Consistent (d.removeSystem pos) ∧ ∀ which, KeepsCurrent d (d.removeSystem pos) which := by
  refine ⟨⟨?_, ?_⟩, fun which => ?_⟩
  · rw [removeSystem_currents]
    exact consistent.marked.remove pos there
  · exact consistent.distinct.sublist ((List.eraseIdx_sublist _ _).map _)
  · unfold KeepsCurrent
    rw [removeSystem_currents]
    exact keeps_repair consistent.distinct pos (d.currents which)

/-- The systems that are left were there before. -/
theorem removeLoop_subset (goes : SysEntry → Bool) (left : Nat) :
    ∀ (pos : Nat) (d : Daemon), (d.removeLoop goes left pos).systab ⊆ d.systab := by
  induction left with
  | zero => exact fun _ _ => List.Subset.refl _
  | succ left later =>
    intro pos d
    unfold removeLoop
    split
    · exact List.Subset.refl _
    · refine List.Subset.trans (later (pos + 1) _) ?_
      split
      · exact (List.eraseIdx_sublist _ _).subset
      · exact List.Subset.refl _

/-- So do several of them. -/
theorem removeLoop_keeps (goes : SysEntry → Bool) (left : Nat) :
    ∀ (pos : Nat) (d : Daemon), Consistent d →
      Consistent (d.removeLoop goes left pos) ∧
        ∀ which, KeepsCurrent d (d.removeLoop goes left pos) which := by
  induction left with
  | zero => exact fun _ d consistent => ⟨consistent, fun _ => .inl rfl⟩
  | succ left later =>
    intro pos d consistent
    have next : ∀ middle : Daemon, Consistent middle → (∀ which, KeepsCurrent d middle which) →
        Consistent (middle.removeLoop goes left (pos + 1)) ∧
          ∀ which, KeepsCurrent d (middle.removeLoop goes left (pos + 1)) which := by
      intro middle fine kept
      obtain ⟨still, keeps⟩ := later (pos + 1) middle fine
      exact ⟨still, fun which => (kept which).trans (keeps which) fun entry there =>
        ⟨entry, removeLoop_subset goes left (pos + 1) middle there, rfl⟩⟩
    unfold removeLoop
    split
    · exact ⟨consistent, fun _ => .inl rfl⟩
    · rename_i syst there
      split
      · obtain ⟨fine, kept⟩ := d.removeSystem_keeps pos consistent
          (List.getElem?_eq_some_iff.mp there).1
        exact next _ fine kept
      · exact next d consistent fun _ => .inl rfl

/-! ## Systems come -/

theorem addTo_same (file : Scanned) (entry : SysEntry) :
    (file.addTo entry).node = entry.node ∧ (file.addTo entry).busy = entry.busy := by
  unfold Scanned.addTo
  split
  · exact ⟨rfl, rfl⟩
  · split <;> exact ⟨rfl, rfl⟩

/-- A new entry is the one of the address it is made for, and not marked. -/
theorem daemonSysentryInit_new (world : EntryWorld) (files : StsFiles) (addr : Faddr) :
    (daemonSysentryInit world files addr).system = addr.numbers ∧
      (daemonSysentryInit world files addr).busy = false := by
  refine ⟨?_, rfl⟩
  unfold SysEntry.system daemonSysentryInit nodelistLookup
  dsimp only
  split <;> rfl

/-- A file of the outbound changes no system, or it adds one. -/
theorem outHandleSysqueue_keeps (world : EntryWorld) (d : Daemon) (file : Scanned)
    (consistent : Consistent d) :
    Consistent (outHandleSysqueue world d file) ∧
      ∀ which, denoted SysEntry.system (outHandleSysqueue world d file).systab
          ((outHandleSysqueue world d file).currents which) =
        denoted SysEntry.system d.systab (d.currents which) := by
  unfold outHandleSysqueue
  split
  · have keeps : ∀ {β : Type} (field : SysEntry → β) (pos : Nat),
        (∀ entry, field (file.addTo entry) = field entry) →
          (d.systab.modify pos file.addTo).map field = d.systab.map field := by
      intro β field pos same
      refine List.ext_getElem? fun place => ?_
      rw [List.getElem?_map, List.getElem?_modify, List.getElem?_map]
      cases d.systab[place]? with
      | none => rfl
      | some entry =>
        dsimp only [Option.map_eq_map, Option.map_some]
        split
        · rw [same]
        · rfl
    have systems := keeps SysEntry.system
      (d.systab.findIdx fun entry => ftnAddrcomp entry.node.addr file.addr) fun entry => by
        unfold SysEntry.system
        rw [(addTo_same file entry).1]
    have marks := keeps SysEntry.busy
      (d.systab.findIdx fun entry => ftnAddrcomp entry.node.addr file.addr) fun entry =>
        (addTo_same file entry).2
    exact ⟨consistent.congr systems marks rfl, fun which => denoted_congr systems _⟩
  · rename_i absent
    obtain ⟨system, idle⟩ := daemonSysentryInit_new world d.files file.addr
    have node := addTo_same file (daemonSysentryInit world d.files file.addr)
    refine ⟨⟨consistent.marked.append _ (node.2.trans idle), ?_⟩, fun which =>
      denoted_append _ (consistent.marked.within which)⟩
    dsimp only
    rw [List.map_append, List.nodup_append]
    refine ⟨consistent.distinct, List.nodup_singleton _, fun key old other new same => absent ?_⟩
    rw [List.mem_map] at old
    obtain ⟨entry, there, rfl⟩ := old
    rw [List.map_singleton, List.mem_singleton] at new
    refine List.any_eq_true.mpr ⟨entry, there, (ftnAddrcomp_iff _ _).mpr ?_⟩
    refine (same.trans new).trans (Eq.trans ?_ system)
    unfold SysEntry.system
    rw [node.1]

/-- The outbound is scanned. -/
theorem daemonRescanSysqueue_keeps (world : EntryWorld) (found : List Scanned) (failed : Bool)
    (d : Daemon) (consistent : Consistent d) :
    Consistent (d.daemonRescanSysqueue world found failed) ∧
      ∀ which, KeepsCurrent d (d.daemonRescanSysqueue world found failed) which := by
  have reset : ∀ {β : Type} (field : SysEntry → β),
      (∀ entry, field { entry with flavors := 0, types := 0 } = field entry) →
        (d.systab.map fun entry => { entry with flavors := 0, types := 0 }).map field =
          d.systab.map field := by
    intro β field same
    rw [List.map_map]
    exact List.map_congr_left fun entry _ => same entry
  have scan : ∀ (found : List Scanned) (middle : Daemon), Consistent middle →
      (∀ which, denoted SysEntry.system middle.systab (middle.currents which) =
        denoted SysEntry.system d.systab (d.currents which)) →
      Consistent (found.foldl (outHandleSysqueue world) middle) ∧
        ∀ which, denoted SysEntry.system (found.foldl (outHandleSysqueue world) middle).systab
            ((found.foldl (outHandleSysqueue world) middle).currents which) =
          denoted SysEntry.system d.systab (d.currents which) := by
    intro found
    induction found with
    | nil => exact fun middle fine same => ⟨fine, same⟩
    | cons file rest later =>
      intro middle fine same
      obtain ⟨still, keeps⟩ := outHandleSysqueue_keeps world middle file fine
      exact later _ still fun which => (keeps which).trans (same which)
  have systems := reset SysEntry.system fun _ => rfl
  obtain ⟨fine, same⟩ := scan found
    { d with systab := d.systab.map fun entry => { entry with flavors := 0, types := 0 } }
    (consistent.congr systems (reset SysEntry.busy fun _ => rfl) rfl)
    fun which => denoted_congr systems _
  unfold daemonRescanSysqueue
  dsimp only
  split
  · exact ⟨fine, fun which => .inl (same which)⟩
  · obtain ⟨still, keeps⟩ := removeLoop_keeps
      (fun entry => decide (entry.types = 0) && decide (entry.flavors = 0)) _ 0 _ fine
    refine ⟨still, fun which => ?_⟩
    have kept := keeps which
    unfold KeepsCurrent Keeps at kept ⊢
    rw [same which] at kept
    exact kept

/-! ## Calls end -/

/-- What a call returned changes neither systems nor marks. -/
theorem daemonProcessRc_frame (world : ReapWorld) (addr : Faddr) (d : Daemon) :
    Frame d (d.daemonProcessRc world addr) := by
  unfold daemonProcessRc
  dsimp only
  split
  · exact .refl d
  · rename_i syst there
    have first := d.put_frame (d.systab.findIdx fun entry => ftnAddrcomp entry.node.addr addr)
      { syst with lastcall := world.finish, stat := sessionStatGet d.files world.readable addr }
      fun before was => by
        obtain rfl := Option.some.inj (there.symm.trans was)
        exact ⟨rfl, rfl⟩
    split
    · rename_i act reached
      refine first.trans ?_
      unfold daemonDoTriesAction
      dsimp only
      have second := (d.put (d.systab.findIdx fun entry => ftnAddrcomp entry.node.addr addr)
        { syst with lastcall := world.finish, stat := sessionStatGet d.files world.readable addr }).put_frame
        (d.systab.findIdx fun entry => ftnAddrcomp entry.node.addr addr)
        { syst with
          lastcall := world.finish
          stat := sessionStatGet (sessionStatApplyDiff d.files world.act.written syst.node.addr
            (triesDiff act world.actTime)) world.act.readable syst.node.addr }
        fun before was => by
          unfold put at was
          dsimp only at was
          rw [List.getElem?_set_self (List.getElem?_eq_some_iff.mp there).1] at was
          obtain rfl := Option.some.inj was
          exact ⟨rfl, rfl⟩
      exact ⟨second.systems, second.marks, rfl, rfl⟩
    · exact first

/-- A call is reaped. -/
theorem reapBranch_keeps (world : ReapWorld) (d : Daemon) (consistent : Consistent d) :
    Consistent (d.reapBranch world) ∧ ∀ which, KeepsCurrent d (d.reapBranch world) which := by
  unfold reapBranch
  split
  · exact ⟨consistent, fun _ => .inl rfl⟩
  · split
    · exact ⟨consistent, fun _ => .inl rfl⟩
    · rename_i branch _
      dsimp only
      generalize counted : { d with clients := _ } = middle
      have frame : Frame d (middle.daemonProcessRc world branch.addr) := by
        have same : Frame d middle := by
          subst counted
          exact ⟨rfl, rfl, rfl, rfl⟩
        exact same.trans (daemonProcessRc_frame world branch.addr middle)
      have fine := consistent.congr frame.systems frame.marks frame.queues
      have kept := keepsCurrent_congr frame.systems frame.queues
      split
      · obtain ⟨still, keeps⟩ := removeLoop_keeps
          (fun entry => ftnAddrcomp branch.addr entry.node.addr) _ 0 _ fine
        refine ⟨⟨still.marked, still.distinct⟩, fun which => ?_⟩
        exact (kept which).trans (keeps which) fun entry there =>
          ⟨entry, removeLoop_subset _ _ 0 _ there, rfl⟩
      · exact ⟨⟨fine.marked, fine.distinct⟩, kept⟩

/-! ## Every run -/

/-- Nothing is in the table at first, and after a restart. -/
theorem consistent_empty (d : Daemon) (empty : d.systab = []) (idle : ∀ which, d.queues which = {}) :
    Consistent d := by
  have places : d.currents = fun _ => none := funext fun which => by
    unfold currents
    rw [idle]
  exact ⟨empty ▸ places ▸ marked_nil _, empty ▸ List.nodup_nil⟩

end Daemon

/-- The queue may look for another system at this event. -/
def DaemonEvent.moves (which : Transport) : DaemonEvent → Bool
  | .queueDo other _ => other = which
  | _ => false

namespace Daemon

/-- What every event keeps. -/
theorem step_keeps (d : Daemon) (event : DaemonEvent) (consistent : Consistent d) :
    Consistent (d.step event) ∧
      ∀ which, event.moves which = false → KeepsCurrent d (d.step event) which := by
  cases event with
  | rescan world found failed =>
    obtain ⟨still, keeps⟩ := d.daemonRescanSysqueue_keeps world found failed consistent
    exact ⟨still, fun which _ => keeps which⟩
  | exits pid rc =>
    unfold step
    dsimp only
    split
    · exact ⟨consistent.congr rfl rfl rfl, fun which _ => keepsCurrent_congr rfl rfl which⟩
    · exact ⟨consistent, fun _ _ => .inl rfl⟩
  | reap world =>
    obtain ⟨still, keeps⟩ := d.reapBranch_keeps world consistent
    exact ⟨still, fun which _ => keeps which⟩
  | queueDo which world =>
    unfold step
    dsimp only
    split
    · obtain ⟨still, keeps⟩ := d.daemonQueueDo_keeps world which consistent
      exact ⟨still, fun other moves => keeps other fun same => of_decide_eq_false moves same.symm⟩
    · exact ⟨consistent, fun _ _ => .inl rfl⟩
  | restart maxClients =>
    exact ⟨consistent_empty _ rfl fun _ => rfl, fun which _ =>
      .inr ⟨rfl, fun entry there => absurd there List.not_mem_nil⟩⟩
  | elsewhere addr content =>
    exact ⟨consistent.congr rfl rfl rfl, fun which _ => keepsCurrent_congr rfl rfl which⟩

theorem starts_consistent (maxClients : Transport → Int) (files : StsFiles) :
    Consistent (starts maxClients files) :=
  consistent_empty _ rfl fun _ => rfl

/-- What every run keeps. -/
theorem after_consistent (start : Daemon) (consistent : Consistent start)
    (events : List DaemonEvent) : Consistent (start.after events) := by
  induction events generalizing start with
  | nil => exact consistent
  | cons event rest later => exact later (start.step event) (start.step_keeps event consistent).1

/-- Whatever happens to the daemon in whatever order, its queues are at places of the table
and apart, exactly the systems there are marked busy, and an event at which a queue does not
look for another system leaves it at the same one, or at none once that is gone. -/
theorem queues_keep_current (maxClients : Transport → Int) (files : StsFiles)
    (events : List DaemonEvent) :
    Marked SysEntry.busy ((starts maxClients files).after events).systab
        ((starts maxClients files).after events).currents ∧
      ∀ event which, event.moves which = false →
        KeepsCurrent ((starts maxClients files).after events)
          (((starts maxClients files).after events).step event) which := by
  have consistent := after_consistent (starts maxClients files) (starts_consistent _ _) events
  exact ⟨consistent.marked, fun event => (step_keeps _ event consistent).2⟩

end Daemon

end Binkleyforce
