import Mathlib.Logic.Function.Basic
import Binkleyforce.Library.Runs
import Binkleyforce.Outbound.Plock

/-!
# Processes contending for one lock file

Any number of processes run the lock routines on one lock name, one system call
at a time in any order. Processes start and die between calls, and a number may
be given to a new process after its owner died. The files start in any state.

`plock_check` finds the process of a lock dead and removes the file in a later
call. Between the two another process may remove the same stale file and link a
lock of its own, which is then removed in its place. In every run where this
does not happen the lock excludes.
-/

namespace Binkleyforce

open Library Function

/-- A routine in progress: what is left of it. -/
inductive Task where
  | creating (rest : LockProgram Plock)
  | removing (rest : LockProgram Int)

/-- A process. `holds` says that `plock_create` told it that it has the lock and
it has not removed the lock since; `probed` is the last number it sent signal 0
to. -/
structure Proc where
  alive : Bool
  task : Option Task
  holds : Bool
  probed : Int

/-- The files and the processes by number. -/
structure World where
  files : Files
  procs : Int → Proc

/-- One step of the world. A system call succeeds as the files allow it, or
fails with the given error number. -/
inductive Event where
  | start (pid : Int)
  | die (pid : Int)
  | create (pid : Int)
  | remove (pid : Int)
  | call (pid : Int) (failure : Option Errno)
  deriving DecidableEq, Repr

/-- The answer to one system call of a process. A failing call leaves the files
as they are. Signal 0 to a live process never fails with `ESRCH`. -/
def answer (files : Files) (alive : Int → Bool) (pid : Int) (failure : Option Errno) :
    (request : LockCall) → Files × LockReply request
  | .stat path =>
    (files, failure <|> if files path = none then some .enoent else none)
  | .read path =>
    match failure, files path with
    | some errno, _ => (files, 0, errno)
    | none, none => (files, 0, .enoent)
    | none, some (.number holder) => (files, holder, .other)
    | none, some _ => (files, 0, .other)
  | .kill target =>
    (files, if alive target then failure.filter (· ≠ .esrch) else failure <|> some .esrch)
  | .unlink path =>
    match failure, files path with
    | some errno, _ => (files, some errno)
    | none, none => (files, some .enoent)
    | none, some _ => (update files path none, none)
  | .link old new =>
    match failure, files new, files old with
    | some errno, _, _ => (files, some errno)
    | none, some _, _ => (files, some .eexist)
    | none, none, none => (files, some .enoent)
    | none, none, some content => (update files new (some content), none)
  | .mktemp dir =>
    match failure with
    | some _ => (files, none)
    | none => (files, some (.scratch dir pid))
  | .create path =>
    match failure with
    | some errno => (files, some errno)
    | none => (update files path (some .unparsable), none)
  | .write path =>
    match failure with
    | some errno => (files, some errno)
    | none => (update files path (some (.number pid)), none)

namespace Task

/-- Perform the next system call of a routine. -/
def perform (files : Files) (alive : Int → Bool) (pid : Int) (failure : Option Errno) :
    Task → Files × Task
  | creating (.done value) => (files, creating (.done value))
  | creating (.call request next) =>
    ((answer files alive pid failure request).1,
      creating (next (answer files alive pid failure request).2))
  | removing (.done value) => (files, removing (.done value))
  | removing (.call request next) =>
    ((answer files alive pid failure request).1,
      removing (next (answer files alive pid failure request).2))

/-- The number the next system call probes, if it is a probe. -/
def target : Task → Option Int
  | creating (.call (.kill target) _) => some target
  | _ => none

/-- The next system call removes the lock from within `plock_create`, that is,
as a stale one. -/
def clears (lockname : Path) : Task → Bool
  | creating (.call (.unlink path) _) => path = lockname
  | _ => false

/-- The routine is `plock_remove`. -/
def isRemoving : Task → Bool
  | removing _ => true
  | creating _ => false

end Task

/-- Hand the result of a routine to its process once it is done. -/
def Proc.settle (proc : Proc) : Task → Proc
  | .creating (.done value) => { proc with task := none, holds := proc.holds || value = .ok }
  | .removing (.done _) => { proc with task := none }
  | task => { proc with task := some task }

/-- Which processes live. -/
def World.alive (world : World) (pid : Int) : Bool := (world.procs pid).alive

/-- A process that has just come to be. -/
def Proc.born : Proc := { alive := true, task := none, holds := false, probed := 0 }

/-- A process that does not exist. -/
def Proc.dead : Proc := { alive := false, task := none, holds := false, probed := 0 }

/-- A process after one system call of its routine. -/
def Proc.called (proc : Proc) (task after : Task) (released : Bool) : Proc :=
  { proc with
    holds := proc.holds && !released
    probed := task.target.getD proc.probed }.settle after

/-- One step of the world. A process releases the lock when its `plock_remove`
takes the file away. Events that do not apply change nothing. -/
def advance (name : Bytes) (ext : BusyExt) (world : World) : Event → Turn World Empty
  | .start pid =>
    if 0 < pid ∧ world.alive pid = false then
      .more { world with procs := update world.procs pid .born }
    else .more world
  | .die pid => .more { world with procs := update world.procs pid .dead }
  | .create pid =>
    let proc := world.procs pid
    if proc.alive ∧ proc.task.isNone then
      .more { world with
        procs := update world.procs pid (proc.settle (.creating (plockCreate pid name ext))) }
    else .more world
  | .remove pid =>
    let proc := world.procs pid
    if proc.alive ∧ proc.task.isNone then
      .more { world with
        procs := update world.procs pid
          (proc.settle (.removing (plockRemove pid (.busy name ext)))) }
    else .more world
  | .call pid failure =>
    let proc := world.procs pid
    match proc.task with
    | none => .more world
    | some task =>
      let (files, after) := task.perform world.files world.alive pid failure
      let released := task.isRemoving && (world.files (.busy name ext)).isSome &&
        (files (.busy name ext)).isNone
      .more { files, procs := update world.procs pid (proc.called task after released) }

/-- The process lives, was told it has the lock and has not released it. -/
def World.Holder (world : World) (pid : Int) : Prop :=
  world.alive pid = true ∧ (world.procs pid).holds = true

instance (world : World) (pid : Int) : Decidable (world.Holder pid) :=
  inferInstanceAs (Decidable (_ ∧ _))

/-- No two processes hold the lock. -/
def World.Exclusive (world : World) : Prop :=
  ∀ first second, world.Holder first → world.Holder second → first = second

/-- The event is a system call of one process that takes away the lock file
while another process holds the lock. -/
def RobsHolder (name : Bytes) (ext : BusyExt) (world : World) (event : Event) : Prop :=
  ∃ robber failure holder after, event = .call robber failure ∧ holder ≠ robber ∧
    world.Holder holder ∧ advance name ext world event = .more after ∧
    world.files (.busy name ext) ≠ none ∧ after.files (.busy name ext) = none

/-- When `plock_check` removes a lock as stale, the file, if it is still there,
names the process probed, and that number was not given to a new process. -/
def StillStale (name : Bytes) (ext : BusyExt) (world : World) : Event → Prop
  | .call pid none =>
    (world.procs pid).task.any (Task.clears (.busy name ext)) = true →
      world.files (.busy name ext) = none ∨
      world.files (.busy name ext) = some (.number (world.procs pid).probed) ∧
        world.alive (world.procs pid).probed = false
  | _ => True

instance (name : Bytes) (ext : BusyExt) (world : World) (event : Event) :
    Decidable (StillStale name ext world event) :=
  match event with
  | .call _ none => inferInstanceAs (Decidable (_ → _ ∨ _ ∧ _))
  | .call _ (some _) | .start _ | .die _ | .create _ | .remove _ => .isTrue trivial

/-- Where a process can be in a routine, with what it relies on there: its
temporary file carries its number until it is linked, and the lock carries its
number once it has been told so or has read so. -/
inductive Stage (lockname : Path) (pid : Int) (files : Files) : Task → Prop where
  | naming (dir : Bytes) : Stage lockname pid files (.creating (plockCreateIn pid lockname dir))
  | opening (dir : Bytes) :
      Stage lockname pid files (.creating
        ((plockWrite (.scratch dir pid)).bind
          (plockCreateWritten pid lockname (.scratch dir pid))))
  | writing (dir : Bytes) :
      Stage lockname pid files (.creating
        ((plockWriteOpened (.scratch dir pid)).bind
          (plockCreateWritten pid lockname (.scratch dir pid))))
  | discarding (dir : Bytes) :
      Stage lockname pid files (.creating
        ((plockWriteFailed (.scratch dir pid)).bind
          (plockCreateWritten pid lockname (.scratch dir pid))))
  | linking (dir : Bytes) (written : files (.scratch dir pid) = some (.number pid)) :
      Stage lockname pid files (.creating (plockLink pid lockname (.scratch dir pid)))
  | checking (dir : Bytes) (written : files (.scratch dir pid) = some (.number pid)) :
      Stage lockname pid files (.creating
        ((plockCheck pid lockname).bind (plockLinkChecked lockname (.scratch dir pid))))
  | reading (dir : Bytes) (written : files (.scratch dir pid) = some (.number pid)) :
      Stage lockname pid files (.creating
        ((plockCheckPid pid lockname).bind (plockLinkChecked lockname (.scratch dir pid))))
  | probing (dir : Bytes) (found : Int)
      (written : files (.scratch dir pid) = some (.number pid)) :
      Stage lockname pid files (.creating
        ((plockCheckAlive lockname found).bind (plockLinkChecked lockname (.scratch dir pid))))
  | clearing (dir : Bytes) (written : files (.scratch dir pid) = some (.number pid)) :
      Stage lockname pid files (.creating
        ((plockCheckStale lockname).bind (plockLinkChecked lockname (.scratch dir pid))))
  | relinking (dir : Bytes) (written : files (.scratch dir pid) = some (.number pid)) :
      Stage lockname pid files (.creating (plockLinkAgain lockname (.scratch dir pid)))
  | ending (dir : Bytes) (rc : Plock)
      (locked : rc = .ok → files lockname = some (.number pid)) :
      Stage lockname pid files (.creating (plockLinkEnd (.scratch dir pid) rc))
  | created (rc : Plock) (locked : rc = .ok → files lockname = some (.number pid)) :
      Stage lockname pid files (.creating (.done rc))
  | inspecting : Stage lockname pid files (.removing (plockRemove pid lockname))
  | releasing (locked : files lockname = some (.number pid)) :
      Stage lockname pid files (.removing (plockRemoveOwn lockname))
  | removed (value : Int) : Stage lockname pid files (.removing (.done value))

/-- What one system call does to the files: it touches temporary files of its
own process, links the lock to its own number where there was none, removes a
stale lock, or releases its own. -/
inductive Effect (lockname : Path) (pid : Int) (files after : Files) (task : Task) : Prop where
  | own (scratch : ∀ path, after path ≠ files path → ∃ dir, path = .scratch dir pid)
  | linked (vacant : files lockname = none)
      (taken : after = update files lockname (some (.number pid)))
  | cleared (stale : task.clears lockname = true) (gone : after = update files lockname none)
  | released (mine : files lockname = some (.number pid)) (removing : task.isRemoving = true)
      (gone : after = update files lockname none)

section Stages

variable {lockname : Path} {pid : Int} {files after : Files}

/-- A stage only relies on the process's temporary files and on a lock that
carries its number. -/
theorem Stage.frame {task : Task} (stage : Stage lockname pid files task)
    (scratch : ∀ dir, after (.scratch dir pid) = files (.scratch dir pid))
    (kept : files lockname = some (.number pid) → after lockname = some (.number pid)) :
    Stage lockname pid after task := by
  cases stage with
  | naming dir => exact .naming dir
  | opening dir => exact .opening dir
  | writing dir => exact .writing dir
  | discarding dir => exact .discarding dir
  | linking dir written => exact .linking dir ((scratch dir).trans written)
  | checking dir written => exact .checking dir ((scratch dir).trans written)
  | reading dir written => exact .reading dir ((scratch dir).trans written)
  | probing dir found written => exact .probing dir found ((scratch dir).trans written)
  | clearing dir written => exact .clearing dir ((scratch dir).trans written)
  | relinking dir written => exact .relinking dir ((scratch dir).trans written)
  | ending dir rc locked => exact .ending dir rc (fun ok => kept (locked ok))
  | created rc locked => exact .created rc (fun ok => kept (locked ok))
  | inspecting => exact .inspecting
  | releasing locked => exact .releasing (kept locked)
  | removed value => exact .removed value

/-- A call that leaves the files alone. -/
theorem Effect.idle {task : Task} : Effect lockname pid files files task :=
  .own (fun _ changed => absurd rfl changed)

/-- A call that writes one temporary file of the process. -/
theorem Effect.write {task : Task} (dir : Bytes) (content : Option Content) :
    Effect lockname pid files (update files (.scratch dir pid) content) task := by
  refine .own (fun path changed => ⟨dir, ?_⟩)
  by_contra other
  exact changed (update_of_ne other _ _)


end Stages

/-- What reading a file can answer: the number in it, or 0. -/
theorem answer_read_rule (property : Files → Int × Errno → Prop) (files : Files)
    (alive : Int → Bool) (pid : Int) (failure : Option Errno) (path : Path)
    (answered : ∀ found errno, (found ≠ 0 → files path = some (.number found)) →
      property files (found, errno)) :
    property (answer files alive pid failure (.read path)).1
      (answer files alive pid failure (.read path)).2 := by
  simp only [answer]
  split
  · exact answered 0 _ (absurd rfl)
  · exact answered 0 _ (absurd rfl)
  · rename_i carried
    exact answered _ _ (fun _ => carried)
  · exact answered 0 _ (absurd rfl)

/-- What removing a file can do. -/
theorem answer_unlink_rule (property : Files → Option Errno → Prop) (files : Files)
    (alive : Int → Bool) (pid : Int) (failure : Option Errno) (path : Path)
    (failed : ∀ errno, property files (some errno))
    (removed : property (update files path none) none) :
    property (answer files alive pid failure (.unlink path)).1
      (answer files alive pid failure (.unlink path)).2 := by
  simp only [answer]
  split
  · exact failed _
  · exact failed _
  · exact removed

/-- What linking a file can do: a new name must be vacant. -/
theorem answer_link_rule (property : Files → Option Errno → Prop) (files : Files)
    (alive : Int → Bool) (pid : Int) (failure : Option Errno) (old new : Path)
    (failed : ∀ errno, property files (some errno))
    (linked : files new = none → property (update files new (files old)) none) :
    property (answer files alive pid failure (.link old new)).1
      (answer files alive pid failure (.link old new)).2 := by
  simp only [answer]
  split
  · exact failed _
  · exact failed _
  · exact failed _
  · rename_i vacant present
    exact present ▸ linked vacant

/-- What a process has after a call: a stage again, reached by one of the
effects. -/
structure Progress (lockname : Path) (pid : Int) (files : Files) (task : Task)
    (outcome : Files × Task) : Prop where
  stage : Stage lockname pid outcome.1 outcome.2
  effect : Effect lockname pid files outcome.1 task

section Calls

variable (name : Bytes) (ext : BusyExt) (files : Files) (alive : Int → Bool) (pid : Int)
  (failure : Option Errno) (dir : Bytes)

/-- Removing the temporary file is the end of the routine either way. -/
theorem progress_unlink (rc : Plock)
    (locked : rc = .ok → files (.busy name ext) = some (.number pid)) :
    Progress (.busy name ext) pid files (.creating (plockLinkEnd (.scratch dir pid) rc))
      ((Task.creating (plockLinkEnd (.scratch dir pid) rc)).perform files alive pid failure) := by
  refine answer_unlink_rule
    (fun after _ => Progress (.busy name ext) pid files _ (after, .creating (.done rc)))
    files alive pid failure (.scratch dir pid) (fun _ => ⟨.created rc locked, .idle⟩)
    ⟨.created rc (fun ok => ?_), .write dir none⟩
  have apart : Path.busy name ext ≠ .scratch dir pid := by simp
  exact (update_of_ne apart none files).trans (locked ok)

/-- Linking the temporary file takes a vacant lock and nothing else. -/
theorem progress_link (next : Option Errno → LockProgram Plock) (task : Task)
    (written : files (.scratch dir pid) = some (.number pid))
    (linked : next none = plockLinkEnd (.scratch dir pid) .ok)
    (refused : ∀ errno, Stage (.busy name ext) pid files (.creating (next (some errno)))) :
    Progress (.busy name ext) pid files task
      ((Task.creating (.call (.link (.scratch dir pid) (.busy name ext)) next)).perform
        files alive pid failure) := by
  refine answer_link_rule
    (fun after reply => Progress (.busy name ext) pid files _ (after, .creating (next reply)))
    files alive pid failure _ _ (fun errno => ⟨refused errno, .idle⟩) (fun vacant => ?_)
  rw [linked, written]
  exact ⟨.ending dir .ok (fun _ => update_self _ _ _), .linked vacant rfl⟩

/-- Reading the number in the lock goes on as each answer says. -/
theorem progress_read (next : Int × Errno → LockProgram Plock) (task : Task)
    (answered : ∀ found errno, (found ≠ 0 → files (.busy name ext) = some (.number found)) →
      Stage (.busy name ext) pid files (.creating (next (found, errno)))) :
    Progress (.busy name ext) pid files task
      ((Task.creating (.call (.read (.busy name ext)) next)).perform files alive pid failure) :=
  answer_read_rule
    (fun after reply => Progress (.busy name ext) pid files task (after, .creating (next reply)))
    files alive pid failure _ (fun found errno carried => ⟨answered found errno carried, .idle⟩)

/-- As `progress_read`, within `plock_remove`. -/
theorem progress_inspect (next : Int × Errno → LockProgram Int) (task : Task)
    (answered : ∀ found errno, (found ≠ 0 → files (.busy name ext) = some (.number found)) →
      Stage (.busy name ext) pid files (.removing (next (found, errno)))) :
    Progress (.busy name ext) pid files task
      ((Task.removing (.call (.read (.busy name ext)) next)).perform files alive pid failure) :=
  answer_read_rule
    (fun after reply => Progress (.busy name ext) pid files task (after, .removing (next reply)))
    files alive pid failure _ (fun found errno carried => ⟨answered found errno carried, .idle⟩)

/-- Removing a stale lock, after which the link is tried again. -/
theorem progress_clear (written : files (.scratch dir pid) = some (.number pid))
    (next : Option Errno → LockProgram Plock)
    (failed : ∀ errno, Stage (.busy name ext) pid files (.creating (next (some errno))))
    (again : next none = plockLinkAgain (.busy name ext) (.scratch dir pid)) :
    Progress (.busy name ext) pid files (.creating (.call (.unlink (.busy name ext)) next))
      ((Task.creating (.call (.unlink (.busy name ext)) next)).perform
        files alive pid failure) := by
  refine answer_unlink_rule
    (fun after reply => Progress (.busy name ext) pid files _ (after, .creating (next reply)))
    files alive pid failure _ (fun errno => ⟨failed errno, .idle⟩) ?_
  rw [again]
  have apart : Path.scratch dir pid ≠ .busy name ext := by simp
  exact ⟨.relinking dir ((update_of_ne apart none files).trans written),
    .cleared (by simp [Task.clears]) rfl⟩

/-- Removing the process's own lock. -/
theorem progress_release (locked : files (.busy name ext) = some (.number pid))
    (next : Option Errno → LockProgram Int)
    (ended : ∀ reply, ∃ value, next reply = .done value) :
    Progress (.busy name ext) pid files (.removing (.call (.unlink (.busy name ext)) next))
      ((Task.removing (.call (.unlink (.busy name ext)) next)).perform
        files alive pid failure) := by
  refine answer_unlink_rule
    (fun after reply => Progress (.busy name ext) pid files _ (after, .removing (next reply)))
    files alive pid failure _ (fun errno => ?_) ?_
  · obtain ⟨value, done⟩ := ended (some errno)
    rw [done]
    exact ⟨.removed value, .idle⟩
  · obtain ⟨value, done⟩ := ended none
    rw [done]
    exact ⟨.removed value, .released locked rfl rfl⟩

/-- One system call, from any stage. -/
theorem stage_progress (task : Task) (stage : Stage (.busy name ext) pid files task) :
    Progress (.busy name ext) pid files task (task.perform files alive pid failure) := by
  cases stage with
  | naming dir =>
    cases failure with
    | none => exact ⟨.opening dir, .idle⟩
    | some errno => exact ⟨.created .error (by simp), .idle⟩
  | opening dir =>
    cases failure with
    | none => exact ⟨.writing dir, .write dir _⟩
    | some errno => exact ⟨.created .error (by simp), .idle⟩
  | writing dir =>
    cases failure with
    | none => exact ⟨.linking dir (update_self _ _ _), .write dir _⟩
    | some errno => exact ⟨.discarding dir, .idle⟩
  | discarding dir => exact progress_unlink name ext files alive pid failure dir .error (by simp)
  | linking dir written =>
    refine progress_link name ext files alive pid failure dir _ _ written rfl (fun errno => ?_)
    cases errno with
    | eexist => exact .checking dir written
    | enoent => exact .ending dir .error (by simp)
    | esrch => exact .ending dir .error (by simp)
    | other => exact .ending dir .error (by simp)
  | checking dir written =>
    refine ⟨?_, .idle⟩
    dsimp only [plockCheck, Program.call_bind, Task.perform]
    split
    · exact .relinking dir written
    · exact .reading dir written
  | reading dir written =>
    refine progress_read name ext files alive pid failure _ _ (fun found errno carried => ?_)
    dsimp only
    split
    · split
      · exact .relinking dir written
      · exact .ending dir .error (by simp)
    · rename_i present
      split
      · rename_i mine
        exact .ending dir .ok (fun _ => mine ▸ carried present)
      · exact .probing dir found written
  | probing dir found written =>
    refine ⟨?_, .idle⟩
    dsimp only [plockCheckAlive, Program.call_bind, Task.perform]
    split
    · exact .clearing dir written
    · exact .ending dir .exist (by simp)
  | clearing dir written =>
    exact progress_clear name ext files alive pid failure dir written _
      (fun _ => .ending dir .error (by simp)) rfl
  | relinking dir written =>
    exact progress_link name ext files alive pid failure dir _ _ written rfl
      (fun _ => .ending dir .error (by simp))
  | ending dir rc locked => exact progress_unlink name ext files alive pid failure dir rc locked
  | created rc locked => exact ⟨.created rc locked, .idle⟩
  | inspecting =>
    refine progress_inspect name ext files alive pid failure _ _ (fun found errno carried => ?_)
    dsimp only
    split
    · exact .removed 1
    · rename_i present
      split
      · rename_i mine
        exact .releasing (mine ▸ carried present)
      · exact .removed 0
  | releasing locked =>
    refine progress_release name ext files alive pid failure locked _ (fun reply => ?_)
    cases reply with
    | none => exact ⟨0, rfl⟩
    | some errno => exact ⟨1, rfl⟩
  | removed value => exact ⟨.removed value, .idle⟩

end Calls

/-- A failing call leaves the files alone. -/
theorem answer_failed (files : Files) (alive : Int → Bool) (pid : Int) (errno : Errno)
    (request : LockCall) : (answer files alive pid (some errno) request).1 = files := by
  cases request <;> rfl

theorem perform_failed (files : Files) (alive : Int → Bool) (pid : Int) (errno : Errno)
    (task : Task) : (task.perform files alive pid (some errno)).1 = files := by
  cases task with
  | creating rest =>
    cases rest with
    | done value => rfl
    | call request next => exact answer_failed files alive pid errno request
  | removing rest =>
    cases rest with
    | done value => rfl
    | call request next => exact answer_failed files alive pid errno request

section Effects

variable {name : Bytes} {ext : BusyExt} {pid other : Int} {files after : Files} {task : Task}

/-- A call leaves the temporary files of other processes alone. -/
theorem Effect.scratch (effect : Effect (.busy name ext) pid files after task)
    (apart : other ≠ pid) (dir : Bytes) :
    after (.scratch dir other) = files (.scratch dir other) := by
  have elsewhere : Path.scratch dir other ≠ .busy name ext := by simp
  cases effect with
  | own scratch =>
    by_contra changed
    obtain ⟨_, same⟩ := scratch _ changed
    exact apart (Path.scratch.inj same).2
  | linked vacant taken => rw [taken, update_of_ne elsewhere]
  | cleared stale gone => rw [gone, update_of_ne elsewhere]
  | released mine removing gone => rw [gone, update_of_ne elsewhere]

/-- A lock that carries a number survives every call but a removal as stale and
the release by that process itself. -/
theorem Effect.spares (effect : Effect (.busy name ext) pid files after task)
    (locked : files (.busy name ext) = some (.number other))
    (fresh : task.clears (.busy name ext) = false) :
    after (.busy name ext) = some (.number other) ∨
      other = pid ∧ task.isRemoving = true ∧ after (.busy name ext) = none := by
  cases effect with
  | own scratch =>
    left
    by_contra changed
    have differs : after (.busy name ext) ≠ files (.busy name ext) := by
      rw [locked]
      exact changed
    obtain ⟨_, same⟩ := scratch _ differs
    cases same
  | linked vacant taken => simp [vacant] at locked
  | cleared stale gone => simp [stale] at fresh
  | released mine removing gone =>
    right
    rw [mine] at locked
    refine ⟨(Content.number.inj (Option.some.inj locked)).symm, removing, ?_⟩
    rw [gone, update_self]

end Effects

/-- What a settled process still has to do is the task it was left with. -/
theorem settle_task (proc : Proc) (after task : Task)
    (left : (proc.settle after).task = some task) : task = after := by
  cases after with
  | creating rest =>
    cases rest with
    | done value => simp [Proc.settle] at left
    | call request next => exact (Option.some.inj left).symm
  | removing rest =>
    cases rest with
    | done value => simp [Proc.settle] at left
    | call request next => exact (Option.some.inj left).symm

/-- A process comes to hold the lock by a successful `plock_create`. -/
theorem settle_holds (proc : Proc) (after : Task) (holds : (proc.settle after).holds = true) :
    proc.holds = true ∨ after = .creating (.done .ok) := by
  cases after with
  | creating rest =>
    cases rest with
    | done value =>
      simp only [Proc.settle, Bool.or_eq_true, decide_eq_true_eq] at holds
      exact holds.imp_right (fun ok => by rw [ok])
    | call request next => exact .inl holds
  | removing rest =>
    cases rest with
    | done value => exact .inl holds
    | call request next => exact .inl holds

@[simp] theorem settle_alive (proc : Proc) (after : Task) :
    (proc.settle after).alive = proc.alive := by
  cases after with
  | creating rest => cases rest <;> rfl
  | removing rest => cases rest <;> rfl

/-- The invariant: every routine in progress is at one of its stages, a process
that was told it has the lock is named in it, and the dead do nothing. -/
structure LockKept (name : Bytes) (ext : BusyExt) (world : World) : Prop where
  staged : ∀ pid task, (world.procs pid).task = some task →
    Stage (.busy name ext) pid world.files task
  locked : ∀ pid, (world.procs pid).holds = true →
    world.files (.busy name ext) = some (.number pid)
  gone : ∀ pid, world.alive pid = false →
    (world.procs pid).task = none ∧ (world.procs pid).holds = false

section Events

variable {name : Bytes} {ext : BusyExt} {world : World}

/-- A routine begins at a stage. -/
theorem stage_begin_create (name : Bytes) (ext : BusyExt) (pid : Int) (files : Files) :
    Stage (.busy name ext) pid files (.creating (plockCreate pid name ext)) := by
  unfold plockCreate
  split
  · exact .created .error (by simp)
  · exact .naming _

/-- Replacing one process keeps the invariant if it fits the files. -/
theorem kept_update (kept : LockKept name ext world) (pid : Int) (proc : Proc)
    (staged : ∀ task, proc.task = some task → Stage (.busy name ext) pid world.files task)
    (locked : proc.holds = true → world.files (.busy name ext) = some (.number pid))
    (gone : proc.alive = false → proc.task = none ∧ proc.holds = false) :
    LockKept name ext { world with procs := update world.procs pid proc } := by
  constructor
  · intro other task
    by_cases same : other = pid
    · subst same
      simpa only [update_self] using staged task
    · simpa only [update_of_ne same] using kept.staged other task
  · intro other
    by_cases same : other = pid
    · subst same
      simpa only [update_self] using locked
    · simpa only [update_of_ne same] using kept.locked other
  · intro other
    by_cases same : other = pid
    · subst same
      simpa only [World.alive, update_self] using gone
    · simpa only [World.alive, update_of_ne same] using kept.gone other

/-- Beginning a routine keeps the invariant. -/
theorem kept_begin (kept : LockKept name ext world) (pid : Int) (task : Task)
    (living : (world.procs pid).alive = true)
    (begins : Stage (.busy name ext) pid world.files task)
    (unsettled : task ≠ .creating (.done .ok)) :
    LockKept name ext
      { world with procs := update world.procs pid ((world.procs pid).settle task) } := by
  refine kept_update kept pid _ (fun left after => ?_) (fun holds => ?_) (fun dead => ?_)
  · rw [settle_task _ _ _ after]
    exact begins
  · exact kept.locked pid ((settle_holds _ _ holds).resolve_right unsettled)
  · simp [living] at dead

/-- A lock that names a live process survives a call of another, when what it
removes as stale is still stale. -/
theorem call_spares (pid holder : Int) (failure : Option Errno) (task : Task)
    (running : (world.procs pid).task = some task)
    (stale : StillStale name ext world (.call pid failure))
    (effect : Effect (.busy name ext) pid world.files
      (task.perform world.files world.alive pid failure).1 task)
    (living : world.alive holder = true)
    (locked : world.files (.busy name ext) = some (.number holder)) :
    (task.perform world.files world.alive pid failure).1 (.busy name ext) =
        some (.number holder) ∨
      holder = pid ∧ task.isRemoving = true ∧
        (task.perform world.files world.alive pid failure).1 (.busy name ext) = none := by
  cases failure with
  | some errno =>
    rw [perform_failed]
    exact .inl locked
  | none =>
    refine effect.spares locked ?_
    by_contra clears
    simp only [StillStale, running, locked, Option.any_some] at stale
    rcases stale (by simpa using clears) with absent | ⟨named, dead⟩
    · cases absent
    · rw [← Content.number.inj (Option.some.inj named), living] at dead
      cases dead

/-- One system call keeps the invariant. -/
theorem kept_call (kept : LockKept name ext world) (pid : Int) (failure : Option Errno)
    (task : Task) (running : (world.procs pid).task = some task)
    (stale : StillStale name ext world (.call pid failure)) (after : World)
    (called : advance name ext world (.call pid failure) = .more after) :
    LockKept name ext after := by
  have living : ∀ other, (world.procs other).holds = true ∨ (world.procs other).task ≠ none →
      world.alive other = true := by
    intro other busy
    by_contra dead
    obtain ⟨idle, loose⟩ := kept.gone other (by simpa using dead)
    rcases busy with holds | working
    · simp [loose] at holds
    · exact working idle
  have alive : world.alive pid = true := living pid (.inr (by simp [running]))
  have progress := stage_progress name ext world.files world.alive pid failure task
    (kept.staged pid task running)
  have spares := fun holder => call_spares pid holder failure task running stale progress.effect
  simp only [advance, running, Turn.more.injEq] at called
  subst called
  generalize released : (task.isRemoving && _ && _) = freed
  refine ⟨fun other left staged => ?_, fun other holds => ?_, fun other dead => ?_⟩
  · by_cases same : other = pid
    · subst same
      simp only [update_self, Proc.called] at staged
      rw [settle_task _ _ _ staged]
      exact progress.stage
    · simp only [update_of_ne same] at staged
      refine (kept.staged other left staged).frame
        (fun dir => progress.effect.scratch same dir) (fun locked => ?_)
      have lives := living other (.inr (by simp [staged]))
      exact (spares other lives locked).resolve_right (fun own => same own.1)
  · by_cases same : other = pid
    · subst same
      simp only [update_self, Proc.called] at holds
      rcases settle_holds _ _ holds with still | told
      · simp only [Bool.and_eq_true, Bool.not_eq_eq_eq_not, Bool.not_true] at still
        have locked := kept.locked other still.1
        rcases spares other alive locked with remains | ⟨_, removing, absent⟩
        · exact remains
        · rw [still.2, removing, locked, absent] at released
          simp at released
      · have stage := progress.stage
        rw [told] at stage
        cases stage with
        | created rc locked => exact locked rfl
    · simp only [update_of_ne same] at holds
      exact (spares other (living other (.inl holds)) (kept.locked other holds)).resolve_right
        (fun own => same own.1)
  · by_cases same : other = pid
    · subst same
      simp only [World.alive, update_self, Proc.called, settle_alive] at dead
      simp only [World.alive, dead] at alive
      cases alive
    · simp only [World.alive, update_of_ne same] at dead ⊢
      exact kept.gone other dead

/-- Every step keeps the invariant. -/
theorem kept_advance (kept : LockKept name ext world) (event : Event)
    (stale : StillStale name ext world event) (after : World)
    (advanced : advance name ext world event = .more after) : LockKept name ext after := by
  cases event with
  | start pid =>
    simp only [advance] at advanced
    split at advanced
    · obtain rfl := Turn.more.inj advanced
      exact kept_update kept pid .born (by simp [Proc.born]) (by simp [Proc.born])
        (by simp [Proc.born])
    · obtain rfl := Turn.more.inj advanced
      exact kept
  | die pid =>
    obtain rfl := Turn.more.inj advanced
    exact kept_update kept pid .dead (by simp [Proc.dead]) (by simp [Proc.dead])
      (by simp [Proc.dead])
  | create pid =>
    simp only [advance] at advanced
    split at advanced
    · rename_i idle
      obtain rfl := Turn.more.inj advanced
      refine kept_begin kept pid _ idle.1 (stage_begin_create name ext pid world.files) ?_
      unfold plockCreate
      split <;> simp [plockCreateIn]
    · obtain rfl := Turn.more.inj advanced
      exact kept
  | remove pid =>
    simp only [advance] at advanced
    split at advanced
    · rename_i idle
      obtain rfl := Turn.more.inj advanced
      exact kept_begin kept pid _ idle.1 .inspecting (by simp)
    · obtain rfl := Turn.more.inj advanced
      exact kept
  | call pid failure =>
    cases running : (world.procs pid).task with
    | none =>
      simp only [advance, running] at advanced
      obtain rfl := Turn.more.inj advanced
      exact kept
    | some task => exact kept_call kept pid failure task running stale after advanced

/-- Two holders would both be named in the one lock file. -/
theorem exclusive_of_kept (kept : LockKept name ext world) : world.Exclusive := by
  intro first second holds also
  have named := (kept.locked first holds.2).symm.trans (kept.locked second also.2)
  exact Content.number.inj (Option.some.inj named)

/-- No call takes away the lock of another holder. -/
theorem not_robs_of_kept (kept : LockKept name ext world) (event : Event)
    (stale : StillStale name ext world event) : ¬ RobsHolder name ext world event := by
  rintro ⟨robber, failure, holder, after, rfl, apart, holds, called, _, absent⟩
  have locked := kept.locked holder holds.2
  cases running : (world.procs robber).task with
  | none =>
    simp only [advance, running] at called
    obtain rfl := Turn.more.inj called
    rw [locked] at absent
    cases absent
  | some task =>
    have progress := stage_progress name ext world.files world.alive robber failure task
      (kept.staged robber task running)
    have spared := call_spares robber holder failure task running stale progress.effect
      holds.1 locked
    simp only [advance, running, Turn.more.injEq] at called
    subst called
    rcases spared with remains | ⟨own, _, _⟩
    · simp only [remains] at absent
      cases absent
    · exact apart own

end Events

/-- No process is in a lock routine, and none was told it has the lock. -/
def World.Idle (world : World) : Prop :=
  ∀ pid, (world.procs pid).task = none ∧ (world.procs pid).holds = false

/-- An idle world keeps the invariant, whatever its files hold. -/
theorem kept_idle {world : World} (name : Bytes) (ext : BusyExt) (idle : world.Idle) :
    LockKept name ext world where
  staged pid task running := by simp [idle pid] at running
  locked pid holds := by simp [idle pid] at holds
  gone pid _ := idle pid

/-- From any idle world, in every run in which `plock_check` only removes the
stale file it has checked, no two live processes hold the lock at any moment
and no process takes it away from another. -/
theorem plock_excludes (name : Bytes) (ext : BusyExt) (start : World) (idle : start.Idle)
    (schedule : List Event)
    (fresh : Along (StillStale name ext) (advance name ext) start schedule) :
    (∀ final, run (advance name ext) start schedule = .more final → final.Exclusive) ∧
      ¬ Passes (advance name ext) start schedule (fun _ => RobsHolder name ext) := by
  have keeps : ∀ events, Along (StillStale name ext) (advance name ext) start events →
      ∀ final, run (advance name ext) start events = .more final → LockKept name ext final := by
    intro events along
    exact run_reaches (LockKept name ext)
      (fun before event after kept stale => kept_advance kept event stale after)
      start (kept_idle name ext idle) events along
  refine ⟨fun final reached => exclusive_of_kept (keeps schedule fresh final reached), ?_⟩
  rintro ⟨past, event, rest, before, split, reached, robs⟩
  rw [split] at fresh
  obtain ⟨earlier, stale⟩ := along_at _ _ _ _ _ _ _ fresh reached
  exact not_robs_of_kept (keeps past earlier before reached) event stale robs

/-- A number of system calls of one process, all succeeding. -/
def calls (pid : Int) (count : Nat) : List Event := List.replicate count (.call pid none)

/-- Two processes and a lock left by a dead one. -/
def staleWorld : World where
  files := fun path =>
    if path = .busy (ascii "/out/00010001") .bsy then some (.number 9) else none
  procs := fun pid => if pid = 1 ∨ pid = 2 then .born else .dead

/-- The second process takes the stale lock while nobody interferes. -/
def takeover : List Event := .create 2 :: calls 2 10

/-- The first process finds the lock stale, the second takes it over, and the
first goes on. -/
def race : List Event := .create 1 :: calls 1 7 ++ takeover ++ calls 1 3

theorem staleWorld_idle : staleWorld.Idle := by
  intro pid
  simp only [staleWorld]
  split <;> exact ⟨rfl, rfl⟩

/-- An undisturbed takeover of the stale lock leaves one holder. -/
theorem plock_excludes_takeover :
    (run (advance (ascii "/out/00010001") .bsy) staleWorld takeover).Leaves
      (fun final => final.Holder 2 ∧ final.Exclusive) := by
  have excluded := plock_excludes (ascii "/out/00010001") .bsy staleWorld staleWorld_idle takeover
    (by decide)
  have held : (run (advance (ascii "/out/00010001") .bsy) staleWorld takeover).Leaves
      (fun final => final.Holder 2) := by decide
  cases reached : run (advance (ascii "/out/00010001") .bsy) staleWorld takeover with
  | more final =>
    rw [reached] at held
    exact ⟨held, excluded.1 final reached⟩
  | halt _ result => exact result.elim

/-- In the race both processes end up holding the lock. -/
theorem race_two_holders :
    ¬ ∀ start : World, start.Idle → ∀ schedule final,
      run (advance (ascii "/out/00010001") .bsy) start schedule = .more final →
        final.Exclusive := by
  intro always
  have both : (run (advance (ascii "/out/00010001") .bsy) staleWorld race).Leaves
      (fun final => final.Holder 1 ∧ final.Holder 2) := by decide
  cases reached : run (advance (ascii "/out/00010001") .bsy) staleWorld race with
  | more final =>
    rw [reached] at both
    have same := always staleWorld staleWorld_idle race final reached 1 2 both.1 both.2
    exact absurd same (by decide)
  | halt _ result => exact result.elim

end Binkleyforce
