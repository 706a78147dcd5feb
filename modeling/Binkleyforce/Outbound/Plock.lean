import Binkleyforce.Library.Program
import Binkleyforce.Util.Text

/-!
# Lock files

A lock is a file that holds the process number of its holder. It is made by
writing a temporary file and linking it to the lock's name, which fails where
the name is taken. A lock whose process no longer exists is removed and the
link tried again.

The routines are programs over the system calls they issue; reading a process
number (open, scan, close) is one request, as is every other call. The reply to
it carries `errno` as the caller finds it, because the check looks at `errno`
after a failed scan.
-/

namespace Binkleyforce

open Library

/-- The suffix of a busy file. -/
inductive BusyExt where
  | bsy
  | csy
  deriving DecidableEq, Repr

/-- The files the lock routines name: the busy file of an outbound name, and the
name `mktemp` makes in a directory for one process. The latter is unique, so no
two processes and no lock share it. -/
inductive Path where
  | busy (name : Bytes) (ext : BusyExt)
  | scratch (dir : Bytes) (pid : Int)
  deriving DecidableEq, Repr

/-- What a file holds: a process number, or text that does not start with one.
A file may also be closed to the reader. -/
inductive Content where
  | number (pid : Int)
  | unparsable
  | unreadable
  deriving DecidableEq, Repr

/-- The files by path. -/
abbrev Files := Path → Option Content

/-- The error numbers the routines tell apart. -/
inductive Errno where
  | enoent
  | eexist
  | esrch
  | other
  deriving DecidableEq, Repr

/-- The system calls of the lock routines. -/
inductive LockCall where
  | stat (path : Path)
  | read (path : Path)
  | kill (pid : Int)
  | unlink (path : Path)
  | link (old new : Path)
  | mktemp (dir : Bytes)
  | create (path : Path)
  | write (path : Path)
  deriving DecidableEq, Repr

/-- Replies: `none` is success and `some` the error number. Reading yields the
process number, 0 for a file that cannot be read or parsed, with `errno`. -/
abbrev LockReply : LockCall → Type
  | .read _ => Int × Errno
  | .mktemp _ => Option Path
  | _ => Option Errno

/-- A program over the lock system calls. -/
abbrev LockProgram := Program LockCall LockReply

/-- The return codes of the lock routines. -/
inductive Plock where
  | ok
  | exist
  | error
  | ourlock
  deriving DecidableEq, Repr

/-- The directory of a path up to its last separator; a separator at the start
of the path does not count, as in `plock_create`. -/
def plockDir (name : Bytes) : Option Bytes :=
  let dir := (name.reverse.dropWhile (· ≠ 47)).reverse
  if dir.length ≤ 1 then none else some dir

/-- The directory a path lies in. -/
def Path.dir : Path → Bytes
  | busy name _ => (plockDir name).getD []
  | scratch dir _ => dir

/-- The end of `plock_write` after a failed write: remove the file again. -/
def plockWriteFailed (path : Path) : LockProgram Plock :=
  .call (.unlink path) fun _ => .done .error

/-- The part of `plock_write` after the file is open. -/
def plockWriteOpened (path : Path) : LockProgram Plock :=
  .call (.write path) fun
    | none => .done .ok
    | some _ => plockWriteFailed path

/-- `plock_write`: write the caller's number to the file. -/
def plockWrite (path : Path) : LockProgram Plock :=
  .call (.create path) fun
    | some _ => .done .error
    | none => plockWriteOpened path

/-- The end of `plock_check`: the process of the lock is gone. -/
def plockCheckStale (lockname : Path) : LockProgram Plock :=
  .call (.unlink lockname) fun
    | none => .done .ok
    | some _ => .done .error

/-- The middle of `plock_check`: does the process of the lock live? -/
def plockCheckAlive (lockname : Path) (pid : Int) : LockProgram Plock :=
  .call (.kill pid) fun reply =>
    if reply = some .esrch then plockCheckStale lockname else .done .exist

/-- The part of `plock_check` after `stat`: whose lock is it? -/
def plockCheckPid (getpid : Int) (lockname : Path) : LockProgram Plock :=
  .call (.read lockname) fun (pid, errno) =>
    if pid = 0 then .done (if errno = .enoent then .ok else .error)
    else if pid = getpid then .done .ourlock
    else plockCheckAlive lockname pid

/-- `plock_check`. -/
def plockCheck (getpid : Int) (lockname : Path) : LockProgram Plock :=
  .call (.stat lockname) fun reply =>
    if reply = some .enoent then .done .ok else plockCheckPid getpid lockname

/-- The end of `plock_link`: remove the temporary name and return. -/
def plockLinkEnd (tmpname : Path) (rc : Plock) : LockProgram Plock :=
  .call (.unlink tmpname) fun _ => .done rc

/-- The second link of `plock_link`, after the check found the name free. -/
def plockLinkAgain (lockname tmpname : Path) : LockProgram Plock :=
  .call (.link tmpname lockname) fun
    | none => plockLinkEnd tmpname .ok
    | some _ => plockLinkEnd tmpname .error

/-- The part of `plock_link` after the check of an existing lock. -/
def plockLinkChecked (lockname tmpname : Path) (rc : Plock) : LockProgram Plock :=
  match rc with
  | .ok => plockLinkAgain lockname tmpname
  | .ourlock => plockLinkEnd tmpname .ok
  | .exist => plockLinkEnd tmpname .exist
  | .error => plockLinkEnd tmpname .error

/-- `plock_link`. -/
def plockLink (getpid : Int) (lockname tmpname : Path) : LockProgram Plock :=
  .call (.link tmpname lockname) fun
    | none => plockLinkEnd tmpname .ok
    | some .eexist => (plockCheck getpid lockname).bind (plockLinkChecked lockname tmpname)
    | some _ => plockLinkEnd tmpname .error

/-- The part of `plock_create` after the temporary file is written. -/
def plockCreateWritten (getpid : Int) (lockname tmpname : Path) (rc : Plock) :
    LockProgram Plock :=
  if rc = .ok then plockLink getpid lockname tmpname else .done rc

/-- The part of `plock_create` after the directory of the lock is known. -/
def plockCreateIn (getpid : Int) (lockname : Path) (dir : Bytes) : LockProgram Plock :=
  .call (.mktemp dir) fun
    | none => .done .error
    | some tmpname =>
      (plockWrite tmpname).bind (plockCreateWritten getpid lockname tmpname)

/-- `plock_create` for the busy file of an outbound name. -/
def plockCreate (getpid : Int) (name : Bytes) (ext : BusyExt) : LockProgram Plock :=
  match plockDir name with
  | none => .done .error
  | some dir => plockCreateIn getpid (.busy name ext) dir

/-- The end of `plock_remove`, for a lock of our own. -/
def plockRemoveOwn (lockname : Path) : LockProgram Int :=
  .call (.unlink lockname) fun
    | none => .done 0
    | some _ => .done 1

/-- `plock_remove`. -/
def plockRemove (getpid : Int) (lockname : Path) : LockProgram Int :=
  .call (.read lockname) fun (pid, _) =>
    if pid = 0 then .done 1
    else if pid = getpid then plockRemoveOwn lockname
    else .done 0

end Binkleyforce
