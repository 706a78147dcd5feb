import Mathlib.Logic.Function.Basic
import Binkleyforce.Outbound.Plock

/-!
# The lock routines of one process on a disk

A disk is the state of the directories, of the files in them, and of the
processes that files may name. The routines are run to their end by one process
while nothing else moves. Each has one description of its outcome by what is at
the lock's path.
-/

namespace Binkleyforce

open Library Library.Program Function

/-- A directory: absent, usable, not writable by us, or on a full device, where
files can be made and removed but not written. -/
inductive Directory where
  | missing
  | writable
  | readonly
  | full
  deriving DecidableEq, Repr

/-- What the running process finds. -/
structure Disk where
  files : Files
  dirs : Bytes → Directory
  alive : Int → Bool
  self : Int
  errno : Errno
  numbered : 0 < self

/-- Files can be linked and removed in the directory. -/
def Directory.changes : Directory → Bool
  | writable | full => true
  | missing | readonly => false

namespace Disk

/-- The file at a path. There is none where the directory is missing. -/
def get (disk : Disk) (path : Path) : Option Content :=
  if disk.dirs path.dir = .missing then none else disk.files path

/-- Replace or remove the file at a path. -/
def put (disk : Disk) (path : Path) (content : Option Content) : Disk :=
  { disk with files := update disk.files path content }

/-- Set `errno`. -/
def setErrno (disk : Disk) (errno : Errno) : Disk := { disk with errno }

/-- Fail a request. -/
def fail (disk : Disk) (errno : Errno) : Disk × Option Errno := (disk.setErrno errno, some errno)

/-- The system calls. -/
def handle (disk : Disk) : (request : LockCall) → Disk × LockReply request
  | .stat path => if disk.get path = none then disk.fail .enoent else (disk, none)
  | .read path =>
    match disk.get path with
    | none => (disk.setErrno .enoent, 0, .enoent)
    | some (.number pid) => (disk, pid, disk.errno)
    | some .unparsable => (disk, 0, disk.errno)
    | some .unreadable => (disk.setErrno .other, 0, .other)
  | .kill pid => if disk.alive pid then (disk, none) else disk.fail .esrch
  | .unlink path =>
    if disk.get path = none then disk.fail .enoent
    else if disk.dirs path.dir = .readonly then disk.fail .other
    else (disk.put path none, none)
  | .link old new =>
    if disk.get old = none then disk.fail .enoent
    else if disk.get new ≠ none then disk.fail .eexist
    else
      match disk.dirs new.dir with
      | .missing => disk.fail .enoent
      | .readonly => disk.fail .other
      | .writable | .full => (disk.put new (disk.get old), none)
  | .mktemp dir => (disk, some (.scratch dir disk.self))
  | .create path =>
    match disk.dirs path.dir with
    | .missing => disk.fail .enoent
    | .readonly => disk.fail .other
    | .writable | .full => (disk.put path (some .unparsable), none)
  | .write path =>
    if disk.dirs path.dir = .full then disk.fail .other
    else (disk.put path (some (.number disk.self)), none)

@[simp] theorem put_dirs (disk : Disk) (path : Path) (content : Option Content) :
    (disk.put path content).dirs = disk.dirs := rfl

@[simp] theorem put_self (disk : Disk) (path : Path) (content : Option Content) :
    (disk.put path content).self = disk.self := rfl

@[simp] theorem put_alive (disk : Disk) (path : Path) (content : Option Content) :
    (disk.put path content).alive = disk.alive := rfl

@[simp] theorem put_errno (disk : Disk) (path : Path) (content : Option Content) :
    (disk.put path content).errno = disk.errno := rfl

@[simp] theorem setErrno_dirs (disk : Disk) (errno : Errno) :
    (disk.setErrno errno).dirs = disk.dirs := rfl

@[simp] theorem setErrno_self (disk : Disk) (errno : Errno) :
    (disk.setErrno errno).self = disk.self := rfl

@[simp] theorem setErrno_alive (disk : Disk) (errno : Errno) :
    (disk.setErrno errno).alive = disk.alive := rfl

@[simp] theorem setErrno_errno (disk : Disk) (errno : Errno) :
    (disk.setErrno errno).errno = errno := rfl

@[simp] theorem setErrno_setErrno (disk : Disk) (first second : Errno) :
    (disk.setErrno first).setErrno second = disk.setErrno second := rfl

@[simp] theorem setErrno_get (disk : Disk) (errno : Errno) (path : Path) :
    (disk.setErrno errno).get path = disk.get path := rfl

@[simp] theorem get_put_self (disk : Disk) (path : Path) (content : Option Content)
    (present : disk.dirs path.dir ≠ .missing) : (disk.put path content).get path = content := by
  simp [get, put, present]

@[simp] theorem get_put_other (disk : Disk) (path other : Path) (content : Option Content)
    (apart : other ≠ path) : (disk.put path content).get other = disk.get other := by
  simp [get, put, update_of_ne apart]

theorem self_ne_zero (disk : Disk) : disk.self ≠ 0 := by
  have positive := disk.numbered
  omega

/-- Nothing lies in a missing directory. -/
theorem get_missing (disk : Disk) (path : Path) (missing : disk.dirs path.dir = .missing) :
    disk.get path = none := by
  simp [get, missing]

theorem present_of_get (disk : Disk) (path : Path) (found : disk.get path ≠ none) :
    disk.dirs path.dir ≠ .missing :=
  fun missing => found (disk.get_missing path missing)

end Disk

/-- What a lock path holds, as `plock_check` tells it apart. -/
inductive Status where
  | vacant
  | own
  | live
  | stale
  | unclear
  deriving DecidableEq, Repr

/-- The status of a file's content. A number of 0 counts as not parsed. -/
def Disk.statusOf (disk : Disk) : Option Content → Status
  | none => .vacant
  | some (.number pid) =>
    if pid = 0 then .unclear
    else if pid = disk.self then .own
    else if disk.alive pid then .live
    else .stale
  | some .unparsable => .unclear
  | some .unreadable => .unclear

/-- The status of a path. -/
def Disk.status (disk : Disk) (path : Path) : Status := disk.statusOf (disk.get path)

@[simp] theorem setErrno_status (disk : Disk) (errno : Errno) (path : Path) :
    (disk.setErrno errno).status path = disk.status path := rfl

/-- A path is vacant exactly when no file is there. -/
theorem Disk.status_vacant_iff (disk : Disk) (path : Path) :
    disk.status path = .vacant ↔ disk.get path = none := by
  unfold status statusOf
  split <;> simp_all
  split_ifs <;> simp

/-- A path is our own lock exactly when it carries our number. -/
theorem Disk.status_own_iff (disk : Disk) (path : Path) :
    disk.status path = .own ↔ disk.get path = some (.number disk.self) := by
  unfold status statusOf
  split
  · simp_all
  · rename_i pid found
    have positive := disk.self_ne_zero
    by_cases zero : pid = 0
    · simp [found, zero, positive.symm]
    · by_cases mine : pid = disk.self
      · simp [found, mine, positive]
      · simp only [zero, mine, if_false, found, Option.some.injEq, Content.number.injEq, iff_false]
        split <;> simp
  · simp_all
  · simp_all

/-- `plock_check`: a stale lock is removed where its directory allows it, and
the check of a lock that does not parse depends on an error of the past. -/
theorem exec_plockCheck (disk : Disk) (path : Path) :
    exec Disk.handle (plockCheck disk.self path) disk =
      match disk.status path with
      | .vacant => (disk.setErrno .enoent, .ok)
      | .own => (disk, .ourlock)
      | .live => (disk, .exist)
      | .stale =>
        if disk.dirs path.dir = .readonly then (disk.setErrno .other, .error)
        else ((disk.setErrno .esrch).put path none, .ok)
      | .unclear =>
        if disk.get path = some .unreadable then (disk.setErrno .other, .error)
        else (disk, if disk.errno = .enoent then .ok else .error) := by
  cases found : disk.get path with
  | none => simp [plockCheck, Disk.handle, Disk.fail, Disk.status, Disk.statusOf, found]
  | some content =>
    cases content with
    | unparsable =>
      simp [plockCheck, plockCheckPid, Disk.handle, Disk.status, Disk.statusOf, found]
    | unreadable =>
      simp [plockCheck, plockCheckPid, Disk.handle, Disk.status, Disk.statusOf, found]
    | number pid =>
      by_cases zero : pid = 0
      · simp [plockCheck, plockCheckPid, Disk.handle, Disk.status, Disk.statusOf, found, zero]
      by_cases mine : pid = disk.self
      · simp [plockCheck, plockCheckPid, Disk.handle, Disk.status, Disk.statusOf, found, mine,
          disk.self_ne_zero]
      by_cases lives : disk.alive pid = true
      · simp [plockCheck, plockCheckPid, plockCheckAlive, Disk.handle, Disk.status, Disk.statusOf,
          found, zero, mine, lives]
      by_cases closed : disk.dirs path.dir = .readonly
      · simp [plockCheck, plockCheckPid, plockCheckAlive, plockCheckStale, Disk.handle, Disk.fail,
          Disk.status, Disk.statusOf, found, zero, mine, lives, closed]
      · simp [plockCheck, plockCheckPid, plockCheckAlive, plockCheckStale, Disk.handle, Disk.fail,
          Disk.status, Disk.statusOf, found, zero, mine, lives, closed]

/-- The process, its view of the others and the directories are the same, and so
is every file but those touched. -/
structure Disk.Frame (disk after : Disk) (touched : Path → Prop) : Prop where
  dirs : after.dirs = disk.dirs
  self : after.self = disk.self
  alive : after.alive = disk.alive
  others : ∀ path, ¬ touched path → after.get path = disk.get path

/-- The outcome of `plock_link` by what was at the lock and at the temporary
name. -/
inductive Linked (disk after : Disk) (lockname tmpname : Path) : Plock → Prop where
  | ours (present : disk.get tmpname ≠ none) (own : disk.status lockname = .own)
      (kept : after.get lockname = disk.get lockname) : Linked disk after lockname tmpname .ok
  | made (present : disk.get tmpname ≠ none)
      (free : disk.status lockname = .vacant ∨ disk.status lockname = .stale)
      (room : (disk.dirs lockname.dir).changes = true)
      (now : after.get lockname = disk.get tmpname) : Linked disk after lockname tmpname .ok
  | busy (present : disk.get tmpname ≠ none) (live : disk.status lockname = .live)
      (kept : after.get lockname = disk.get lockname) : Linked disk after lockname tmpname .exist
  | failed (reason : disk.get tmpname = none ∨ disk.status lockname = .unclear ∨
        (disk.status lockname = .vacant ∨ disk.status lockname = .stale) ∧
          (disk.dirs lockname.dir).changes = false)
      (kept : after.get lockname = disk.get lockname) : Linked disk after lockname tmpname .error

/-- What `plock_link` leaves behind: besides the outcome at the lock, the
temporary name is gone unless its directory forbids it. -/
structure LinkResult (disk after : Disk) (lockname tmpname : Path) (rc : Plock) : Prop where
  linked : Linked disk after lockname tmpname rc
  frame : Disk.Frame disk after (fun path => path = lockname ∨ path = tmpname)
  consumed : after.get tmpname = none ∨
    after.get tmpname = disk.get tmpname ∧ (disk.dirs tmpname.dir).changes = false

section Link

variable (disk : Disk) (lockname tmpname : Path)

/-- The end of `plock_link` removes the temporary name, unless its directory
forbids it, and no other file. -/
theorem exec_plockLinkEnd (rc : Plock) :
    let result := exec Disk.handle (plockLinkEnd tmpname rc) disk
    result.2 = rc ∧ Disk.Frame disk result.1 (· = tmpname) ∧
      (result.1.get tmpname = none ∨
        result.1.get tmpname = disk.get tmpname ∧
          (disk.dirs tmpname.dir).changes = false) := by
  simp only [plockLinkEnd, exec_call, exec_done, Disk.handle, Disk.fail, true_and]
  split
  · rename_i absent
    exact ⟨⟨rfl, rfl, rfl, fun path apart => rfl⟩, .inl absent⟩
  · rename_i present
    split
    · rename_i closed
      exact ⟨⟨rfl, rfl, rfl, fun path apart => rfl⟩, .inr ⟨rfl, by simp [closed, Directory.changes]⟩⟩
    · exact ⟨⟨rfl, rfl, rfl, fun path apart => Disk.get_put_other disk _ _ _ apart⟩,
        .inl (Disk.get_put_self disk _ _ (disk.present_of_get tmpname present))⟩

/-- An end of `plock_link` reached with the lock settled. -/
theorem linked_end (middle : Disk) (apart : lockname ≠ tmpname) (rc : Plock)
    (frame : Disk.Frame disk middle (· = lockname))
    (linked : Linked disk middle lockname tmpname rc) :
    let result := exec Disk.handle (plockLinkEnd tmpname rc) middle
    LinkResult disk result.1 lockname tmpname result.2 := by
  obtain ⟨same, ended, consumed⟩ := exec_plockLinkEnd middle tmpname rc
  have there := ended.others lockname apart
  simp only [same]
  refine ⟨?_, ⟨ended.dirs.trans frame.dirs, ended.self.trans frame.self,
    ended.alive.trans frame.alive, fun path away => ?_⟩, ?_⟩
  · cases linked with
    | ours present own kept => exact .ours present own (there.trans kept)
    | made present free room now => exact .made present free room (there.trans now)
    | busy present live kept => exact .busy present live (there.trans kept)
    | failed reason kept => exact .failed reason (there.trans kept)
  · push Not at away
    exact (ended.others path away.2).trans (frame.others path away.1)
  · rwa [frame.others tmpname apart.symm, frame.dirs] at consumed

/-- A change of `errno` and of one file. -/
theorem frame_put (errno : Errno) (content : Option Content) :
    Disk.Frame disk ((disk.setErrno errno).put lockname content) (· = lockname) :=
  ⟨rfl, rfl, rfl, fun _ apart => Disk.get_put_other _ _ _ _ apart⟩

/-- A change of `errno` only. -/
theorem frame_errno (errno : Errno) : Disk.Frame disk (disk.setErrno errno) (· = lockname) :=
  ⟨rfl, rfl, rfl, fun _ _ => rfl⟩

/-- The link to a vacant lock. -/
theorem exec_plockLink_vacant (apart : lockname ≠ tmpname) (present : disk.get tmpname ≠ none)
    (vacant : disk.get lockname = none) (next : Option Errno → LockProgram Plock)
    (linked : next none = plockLinkEnd tmpname .ok)
    (failed : ∀ errno, errno ≠ .eexist → next (some errno) = plockLinkEnd tmpname .error) :
    let result := exec Disk.handle (.call (.link tmpname lockname) next) disk
    LinkResult disk result.1 lockname tmpname result.2 := by
  intro result
  have free := (disk.status_vacant_iff lockname).mpr vacant
  simp only [result, exec_call, Disk.handle, present, vacant, if_false, ne_eq, not_true_eq_false,
    Disk.fail]
  cases dir : disk.dirs lockname.dir with
  | missing =>
    rw [failed _ (by simp)]
    exact linked_end disk lockname tmpname _ apart .error (frame_errno disk lockname _)
      (.failed (.inr (.inr ⟨.inl free, by simp [dir, Directory.changes]⟩)) rfl)
  | readonly =>
    rw [failed _ (by simp)]
    exact linked_end disk lockname tmpname _ apart .error (frame_errno disk lockname _)
      (.failed (.inr (.inr ⟨.inl free, by simp [dir, Directory.changes]⟩)) rfl)
  | writable =>
    rw [linked]
    exact linked_end disk lockname tmpname _ apart .ok (frame_put disk lockname disk.errno _)
      (.made present (.inl free) (by simp [dir, Directory.changes])
        (Disk.get_put_self disk _ _ (by simp [dir])))
  | full =>
    rw [linked]
    exact linked_end disk lockname tmpname _ apart .ok (frame_put disk lockname disk.errno _)
      (.made present (.inl free) (by simp [dir, Directory.changes])
        (Disk.get_put_self disk _ _ (by simp [dir])))

/-- The link to a lock that was just removed as stale. -/
theorem exec_plockLinkAgain (apart : lockname ≠ tmpname) (present : disk.get tmpname ≠ none)
    (stale : disk.status lockname = .stale) (open_dir : disk.dirs lockname.dir ≠ .readonly)
    (errno : Errno) :
    let result := exec Disk.handle (plockLinkAgain lockname tmpname)
      ((disk.setErrno errno).put lockname none)
    LinkResult disk result.1 lockname tmpname result.2 := by
  intro result
  have found : disk.get lockname ≠ none := by
    rw [ne_eq, ← disk.status_vacant_iff lockname, stale]
    simp
  have reachable := disk.present_of_get lockname found
  have gone : ((disk.setErrno errno).put lockname none).get lockname = none :=
    Disk.get_put_self (disk.setErrno errno) lockname none reachable
  have kept : ((disk.setErrno errno).put lockname none).get tmpname = disk.get tmpname :=
    Disk.get_put_other (disk.setErrno errno) lockname tmpname none apart.symm
  have room : (disk.dirs lockname.dir).changes = true := by
    cases dir : disk.dirs lockname.dir <;> simp_all [Directory.changes]
  simp only [result, plockLinkAgain, exec_call, Disk.handle, kept, gone, present, if_false, ne_eq,
    not_true_eq_false, Disk.put_dirs, Disk.setErrno_dirs, Disk.fail]
  have relinked := linked_end disk lockname tmpname
    (((disk.setErrno errno).put lockname none).put lockname (disk.get tmpname)) apart .ok
    ⟨rfl, rfl, rfl, fun path away => by
      rw [Disk.get_put_other _ _ _ _ away, Disk.get_put_other _ _ _ _ away, Disk.setErrno_get]⟩
    (.made present (.inr stale) room (Disk.get_put_self _ _ _ reachable))
  cases dir : disk.dirs lockname.dir with
  | missing => exact absurd dir reachable
  | readonly => exact absurd dir open_dir
  | writable => exact relinked
  | full => exact relinked

/-- `plock_link`. -/
theorem exec_plockLink (apart : lockname ≠ tmpname) :
    let result := exec Disk.handle (plockLink disk.self lockname tmpname) disk
    LinkResult disk result.1 lockname tmpname result.2 := by
  intro result
  by_cases absent : disk.get tmpname = none
  · simp only [result, plockLink, exec_call, Disk.handle, absent, if_true]
    exact linked_end disk lockname tmpname _ apart .error (frame_errno disk lockname _)
      (.failed (.inl absent) rfl)
  by_cases vacant : disk.get lockname = none
  · refine exec_plockLink_vacant disk lockname tmpname apart absent vacant _ rfl ?_
    intro errno other
    cases errno with
    | eexist => exact absurd rfl other
    | enoent => rfl
    | esrch => rfl
    | other => rfl
  · simp only [result, plockLink, exec_call, Disk.handle, absent, vacant, if_false, ne_eq,
      not_false_eq_true, if_true, Disk.fail]
    have checked := exec_plockCheck (disk.setErrno .eexist) lockname
    simp only [Disk.setErrno_self] at checked
    rw [exec_bind, checked, setErrno_status]
    cases status : disk.status lockname with
    | vacant => exact absurd ((disk.status_vacant_iff lockname).mp status) vacant
    | own =>
      exact linked_end disk lockname tmpname _ apart .ok (frame_errno disk lockname _)
        (.ours absent status rfl)
    | live =>
      exact linked_end disk lockname tmpname _ apart .exist (frame_errno disk lockname _)
        (.busy absent status rfl)
    | stale =>
      by_cases closed : disk.dirs lockname.dir = .readonly
      · simp only [Disk.setErrno_dirs, closed, if_true]
        exact linked_end disk lockname tmpname _ apart .error (frame_errno disk lockname _)
          (.failed (.inr (.inr ⟨.inr status, by simp [closed, Directory.changes]⟩)) rfl)
      · simp only [Disk.setErrno_dirs, closed, if_false]
        exact exec_plockLinkAgain disk lockname tmpname apart absent status closed .esrch
    | unclear =>
      by_cases closed : disk.get lockname = some .unreadable
      · simp only [Disk.setErrno_get, closed, if_true]
        exact linked_end disk lockname tmpname _ apart .error (frame_errno disk lockname _)
          (.failed (.inr (.inl status)) rfl)
      · simp only [Disk.setErrno_get, closed, if_false, Disk.setErrno_errno, reduceCtorEq]
        exact linked_end disk lockname tmpname _ apart .error (frame_errno disk lockname _)
          (.failed (.inr (.inl status)) rfl)

end Link

/-- `plock_create` can make its temporary file beside the outbound name. -/
def Disk.Creatable (disk : Disk) (name : Bytes) : Prop :=
  ∃ dir, plockDir name = some dir ∧ disk.dirs dir = .writable

instance (disk : Disk) (name : Bytes) : Decidable (disk.Creatable name) :=
  match found : plockDir name with
  | none => .isFalse (fun ⟨_, same, _⟩ => by simp [found] at same)
  | some dir =>
    if writable : disk.dirs dir = .writable then .isTrue ⟨dir, found, writable⟩
    else .isFalse (fun ⟨_, same, also⟩ => by
      rw [found] at same
      exact writable (Option.some.inj same ▸ also))

/-- The outcome of `plock_create` by what was at the lock. -/
inductive Created (disk after : Disk) (name : Bytes) (ext : BusyExt) : Plock → Prop where
  | made (room : disk.Creatable name)
      (free : disk.status (.busy name ext) ≠ .live ∧ disk.status (.busy name ext) ≠ .unclear)
      (now : after.get (.busy name ext) = some (.number disk.self)) : Created disk after name ext .ok
  | busy (room : disk.Creatable name) (live : disk.status (.busy name ext) = .live)
      (kept : after.get (.busy name ext) = disk.get (.busy name ext)) :
      Created disk after name ext .exist
  | failed (reason : ¬ disk.Creatable name ∨ disk.status (.busy name ext) = .unclear)
      (kept : after.get (.busy name ext) = disk.get (.busy name ext)) :
      Created disk after name ext .error

section Create

variable (disk : Disk) (name : Bytes) (ext : BusyExt) (dir : Bytes)

/-- Writing the temporary file. -/
theorem exec_plockWrite :
    exec Disk.handle (plockWrite (.scratch dir disk.self)) disk =
      match disk.dirs dir with
      | .missing => (disk.setErrno .enoent, .error)
      | .readonly => (disk.setErrno .other, .error)
      | .full =>
        (((disk.put (.scratch dir disk.self) (some .unparsable)).setErrno .other).put
          (.scratch dir disk.self) none, .error)
      | .writable =>
        ((disk.put (.scratch dir disk.self) (some .unparsable)).put
          (.scratch dir disk.self) (some (.number disk.self)), .ok) := by
  cases kind : disk.dirs dir with
  | missing => simp [plockWrite, Disk.handle, Disk.fail, Path.dir, kind]
  | readonly => simp [plockWrite, Disk.handle, Disk.fail, Path.dir, kind]
  | writable => simp [plockWrite, plockWriteOpened, Disk.handle, Path.dir, kind]
  | full =>
    have there : (disk.put (.scratch dir disk.self) (some .unparsable)).get
        (.scratch dir disk.self) = some .unparsable :=
      Disk.get_put_self disk _ _ (by simp [Path.dir, kind])
    simp [plockWrite, plockWriteOpened, plockWriteFailed, Disk.handle, Disk.fail, Path.dir, kind,
      there]

/-- The paths `plock_create` touches: the lock and temporary files of its own. -/
def createTouches (path : Path) : Prop :=
  path = .busy name ext ∨ ∃ dir, path = .scratch dir disk.self

/-- A failure to write the temporary file leaves the busy files alone. -/
theorem created_unwritten (after : Disk) (closed : disk.dirs dir ≠ .writable)
    (placed : plockDir name = some dir) (frame : Disk.Frame disk after (· = .scratch dir disk.self)) :
    Created disk after name ext .error ∧ Disk.Frame disk after (createTouches disk name ext) := by
  refine ⟨.failed (.inl ?_) (frame.others _ (by simp)), frame.dirs, frame.self, frame.alive, ?_⟩
  · rintro ⟨other, same, writable⟩
    rw [placed] at same
    exact closed (Option.some.inj same ▸ writable)
  · intro path away
    exact frame.others path (fun scratch => away (.inr ⟨dir, scratch⟩))

/-- Linking the written temporary file. -/
theorem created_written (placed : plockDir name = some dir) (writable : disk.dirs dir = .writable) :
    let written := (disk.put (.scratch dir disk.self) (some .unparsable)).put
      (.scratch dir disk.self) (some (.number disk.self))
    let result := exec Disk.handle (plockLink disk.self (.busy name ext) (.scratch dir disk.self))
      written
    Created disk result.1 name ext result.2 ∧
      Disk.Frame disk result.1 (createTouches disk name ext) := by
  intro written result
  have apart : Path.busy name ext ≠ .scratch dir disk.self := by simp
  have kept : written.get (.busy name ext) = disk.get (.busy name ext) := by
    rw [Disk.get_put_other _ _ _ _ apart, Disk.get_put_other _ _ _ _ apart]
  have number : written.get (.scratch dir disk.self) = some (.number disk.self) :=
    Disk.get_put_self _ _ _ (by simp [Path.dir, writable])
  have status : written.status (.busy name ext) = disk.status (.busy name ext) := by
    rw [Disk.status, kept]
    rfl
  have room : disk.Creatable name := ⟨dir, placed, writable⟩
  have usable : (written.dirs (Path.busy name ext).dir).changes = true := by
    simp [written, Path.dir, placed, writable, Directory.changes]
  obtain ⟨linked, frame, _⟩ :=
    exec_plockLink written (.busy name ext) (.scratch dir disk.self) apart
  change Linked written result.1 _ _ result.2 at linked
  refine ⟨?_, frame.dirs, frame.self, frame.alive, fun path away => ?_⟩
  · generalize result.2 = rc at linked
    cases linked with
    | ours present own stays =>
      rw [status] at own
      refine .made room (by simp [own]) ?_
      rw [stays, kept, (disk.status_own_iff _).mp own]
    | made present free open_dir now =>
      rw [status] at free
      refine .made room ?_ (now.trans number)
      rcases free with vacant | stale
      · simp [vacant]
      · simp [stale]
    | busy present live stays =>
      rw [status] at live
      exact .busy room live (stays.trans kept)
    | failed reason stays =>
      rw [status] at reason
      refine .failed (.inr ?_) (stays.trans kept)
      rcases reason with absent | unclear | ⟨_, closed⟩
      · simp [number] at absent
      · exact unclear
      · simp [usable] at closed
  · have away' : path ≠ .scratch dir disk.self := fun scratch => away (.inr ⟨dir, scratch⟩)
    refine (frame.others path
      (fun touched => touched.elim (fun lock => away (.inl lock)) away')).trans ?_
    rw [Disk.get_put_other _ _ _ _ away', Disk.get_put_other _ _ _ _ away']

/-- `plock_create`. -/
theorem exec_plockCreate :
    let result := exec Disk.handle (plockCreate disk.self name ext) disk
    Created disk result.1 name ext result.2 ∧
      Disk.Frame disk result.1 (createTouches disk name ext) := by
  intro result
  cases placed : plockDir name with
  | none =>
    simp only [result, plockCreate, placed, exec_done]
    exact ⟨.failed (.inl (fun ⟨_, same, _⟩ => by simp [placed] at same)) rfl, rfl, rfl, rfl,
      fun _ _ => rfl⟩
  | some dir =>
    simp only [result, plockCreate, placed, plockCreateIn, exec_call, Disk.handle]
    rw [exec_bind, exec_plockWrite]
    have unwritten := fun after closed =>
      created_unwritten disk name ext dir after closed placed
    cases kind : disk.dirs dir with
    | missing =>
      exact unwritten _ (by simp [kind]) ⟨rfl, rfl, rfl, fun _ _ => rfl⟩
    | readonly =>
      exact unwritten _ (by simp [kind]) ⟨rfl, rfl, rfl, fun _ _ => rfl⟩
    | full =>
      exact unwritten _ (by simp [kind]) ⟨rfl, rfl, rfl, fun path apart =>
        (Disk.get_put_other _ _ _ _ apart).trans (Disk.get_put_other disk _ _ _ apart)⟩
    | writable => exact created_written disk name ext dir placed kind

end Create

end Binkleyforce
