import Binkleyforce.Outbound.Names
import Binkleyforce.Outbound.Disk

/-!
# Busy files of a node

A node is locked in every outbound that has a name for it. `out_bsy_lock` looks
for locks of others, makes its own one after the other, looks again, and takes
back what it made if anything was in the way. A node that is locked for control
only is locked in full by turning each control file into a busy file.

What a failed call leaves behind is settled here for a world that moves between
any two system calls, as long as nobody else writes our process number.
-/

namespace Binkleyforce

open Library Library.Program

/-- `s_bsylist`: a locked node, with the outbound names that were locked. -/
structure BsyEntry where
  addr : Faddr
  names : List Bytes
  isCsy : Bool
  deriving DecidableEq, Repr

/-- Look for a lock of somebody else, stopping at the first. -/
def outBsyFileCheckAny (self : Int) (ext : BusyExt) : List Bytes → LockProgram Bool
  | [] => .done false
  | name :: rest =>
    (plockCheck self (.busy name ext)).bind fun rc =>
      if rc = .exist then .done true else outBsyFileCheckAny self ext rest

/-- Make the lock of each name, stopping where one is held by somebody else. An
error is taken for an outbound that does not exist. Returns whether the attempt
failed, and the names locked. -/
def outBsyFileMakeAll (make : Bytes → LockProgram Plock) :
    List Bytes → List Bytes → LockProgram (Bool × List Bytes)
  | [], locked => .done (false, locked)
  | name :: rest, locked =>
    (make name).bind fun rc =>
      match rc with
      | .ok => outBsyFileMakeAll make rest (locked ++ [name])
      | .exist => .done (true, locked)
      | .error | .ourlock => outBsyFileMakeAll make rest locked

/-- Remove our lock of each name. -/
def outBsyFileUnlinkAll (self : Int) (ext : BusyExt) : List Bytes → LockProgram Unit
  | [] => .done ()
  | name :: rest =>
    (plockRemove self (.busy name ext)).bind fun _ => outBsyFileUnlinkAll self ext rest

/-- The suffix of the locks to make. -/
def lockext (csyLocks : Bool) : BusyExt := if csyLocks then .csy else .bsy

/-- `out_bsy_lock` for a node that is not to be converted: the return code and
the names locked. -/
def outBsyLockNames (self : Int) (names : List Bytes) (csyLocks : Bool) :
    LockProgram (Int × List Bytes) :=
  (outBsyFileCheckAny self .bsy names).bind fun busy =>
  (if busy then .done true else outBsyFileCheckAny self .csy names).bind fun isfailed =>
  (if isfailed then .done (true, [])
    else outBsyFileMakeAll (fun name => plockCreate self name (lockext csyLocks)) names []).bind
      fun made =>
  (if made.1 then .done true else outBsyFileCheckAny self .bsy names).bind fun isfailed =>
    if isfailed then
      (outBsyFileUnlinkAll self (lockext csyLocks) made.2).bind fun _ => .done (-1, [])
    else .done (0, made.2)

/-- `out_bsy_convert_csy_to_bsy`. -/
def outBsyConvertCsyToBsy (self : Int) (names : List Bytes) : LockProgram Int :=
  (outBsyFileMakeAll (fun name => plockLink self (.busy name .bsy) (.busy name .csy)) names
    []).bind fun made =>
    if made.1 then (outBsyFileUnlinkAll self .bsy made.2).bind fun _ => .done 1 else .done 0

/-- The entry is a control lock of the address, to be turned into a full one. -/
def convertible (addr : Faddr) (csyLocks : Bool) (entry : BsyEntry) : Bool :=
  ftnAddrcomp entry.addr addr && entry.isCsy && !csyLocks

/-- `out_bsy_lock`: the return code and the list of locked nodes. -/
def outBsyLock (self : Int) (conf : OutboundConf) (bsylist : List BsyEntry) (addr : Faddr)
    (csyLocks : Bool) : LockProgram (Int × List BsyEntry) :=
  match bsylist.find? (convertible addr csyLocks) with
  | some entry =>
    (outBsyConvertCsyToBsy self entry.names).bind fun rc =>
      .done (rc, if rc = 0 then
        bsylist.modify (bsylist.findIdx (convertible addr csyLocks))
          (fun entry => { entry with isCsy := false })
      else bsylist)
  | none =>
    (outBsyLockNames self (outNames conf addr) csyLocks).bind fun (rc, locked) =>
      .done (rc, if rc = 0 then bsylist ++ [{ addr, names := locked, isCsy := csyLocks }]
      else bsylist)

/-- The file at the path carries our number. -/
def Disk.Mine (disk : Disk) (path : Path) : Prop := disk.get path = some (.number disk.self)

/-- How the world may move between two system calls: the directories stay, and
nobody else writes our number. Other processes may come, go, lock and unlock. -/
structure Disk.Drift (before after : Disk) : Prop where
  dirs : after.dirs = before.dirs
  self : after.self = before.self
  mine : ∀ path, after.Mine path → before.Mine path

/-- A triple of a lock routine in such a world. -/
abbrev LockTriple {α : Type} (pre : Disk → Prop) (program : LockProgram α)
    (post : α → Disk → Prop) : Prop :=
  Triple Disk.Drift Disk.handle pre program post

/-- The rule of a system call. -/
theorem lockTriple_call {α : Type} {pre : Disk → Prop} {post : α → Disk → Prop}
    (request : LockCall) (next : LockReply request → LockProgram α)
    (middle : LockReply request → Disk → Prop)
    (stable : ∀ before after, Disk.Drift before after → pre before → pre after)
    (answered : ∀ disk, pre disk → middle (disk.handle request).2 (disk.handle request).1)
    (rest : ∀ reply, LockTriple (middle reply) (next reply) post) :
    LockTriple pre (.call request next) post :=
  triple_call request next middle stable answered rest

/-- Every busy file of ours was ours at the start, or is one of those made since
in a directory that lets us remove it. -/
structure Owns (base : Disk) (made : Path → Prop) (disk : Disk) : Prop where
  dirs : disk.dirs = base.dirs
  self : disk.self = base.self
  mine : ∀ name ext, disk.Mine (.busy name ext) →
    base.Mine (.busy name ext) ∨
      made (.busy name ext) ∧ (base.dirs (Path.busy name ext).dir).changes = true

section Rollback

variable {base disk : Disk} {made : Path → Prop}

/-- The moves of the world keep the bound. -/
theorem owns_drift (before after : Disk) (drifted : before.Drift after)
    (owns : Owns base made before) : Owns base made after where
  dirs := drifted.dirs.trans owns.dirs
  self := drifted.self.trans owns.self
  mine name ext mine := owns.mine name ext (drifted.mine _ mine)

/-- The bound may be loosened. -/
theorem Owns.weaken {more : Path → Prop} (owns : Owns base made disk)
    (wider : ∀ path, made path → more path) : Owns base more disk where
  dirs := owns.dirs
  self := owns.self
  mine name ext mine := (owns.mine name ext mine).imp_right (fun here => ⟨wider _ here.1, here.2⟩)

theorem Owns.setErrno (owns : Owns base made disk) (errno : Errno) :
    Owns base made (disk.setErrno errno) :=
  ⟨owns.dirs, owns.self, owns.mine⟩

/-- Changing one file keeps the bound if the file is not ours afterwards, or is
allowed to be. -/
theorem Owns.put (owns : Owns base made disk) (path : Path) (content : Option Content)
    (allowed : ∀ name ext, path = .busy name ext → content = some (.number disk.self) →
      made path ∧ (base.dirs path.dir).changes = true) :
    Owns base made (disk.put path content) := by
  refine ⟨owns.dirs, owns.self, fun name ext mine => ?_⟩
  by_cases same : Path.busy name ext = path
  · subst same
    have present := (disk.put _ content).present_of_get _ (by rw [mine]; simp)
    rw [Disk.Mine, Disk.get_put_self disk _ _ present] at mine
    exact .inr (allowed name ext rfl mine)
  · refine owns.mine name ext ?_
    rwa [Disk.Mine, Disk.get_put_other disk _ _ _ same] at mine

/-- The requests that make no busy file. -/
def LockCall.Harmless : LockCall → Prop
  | .link _ _ | .create (.busy _ _) | .write (.busy _ _) => False
  | _ => True

/-- A harmless request keeps the bound. -/
theorem owns_handle (disk : Disk) (request : LockCall) (harmless : request.Harmless)
    (owns : Owns base made disk) : Owns base made (disk.handle request).1 := by
  cases request with
  | stat path =>
    simp only [Disk.handle, Disk.fail]
    split
    · exact owns.setErrno _
    · exact owns
  | read path =>
    simp only [Disk.handle]
    split
    · exact owns.setErrno _
    · exact owns
    · exact owns
    · exact owns.setErrno _
  | kill pid =>
    simp only [Disk.handle, Disk.fail]
    split
    · exact owns
    · exact owns.setErrno _
  | unlink path =>
    simp only [Disk.handle, Disk.fail]
    split
    · exact owns.setErrno _
    · split
      · exact owns.setErrno _
      · exact owns.put path none (fun _ _ _ ours => by cases ours)
  | link old new => exact harmless.elim
  | mktemp dir => exact owns
  | create path =>
    cases path with
    | busy name ext => exact harmless.elim
    | scratch dir pid =>
      simp only [Disk.handle, Disk.fail]
      split
      · exact owns.setErrno _
      · exact owns.setErrno _
      · exact owns.put _ _ (fun _ _ same _ => by cases same)
      · exact owns.put _ _ (fun _ _ same _ => by cases same)
  | write path =>
    cases path with
    | busy name ext => exact harmless.elim
    | scratch dir pid =>
      simp only [Disk.handle, Disk.fail]
      split
      · exact owns.setErrno _
      · exact owns.put _ _ (fun _ _ same _ => by cases same)

/-- A routine of harmless requests keeps the bound. -/
theorem owns_requests {α : Type} (program : LockProgram α)
    (only : Requests LockCall.Harmless program) :
    LockTriple (Owns base made) program (fun _ => Owns base made) :=
  triple_requests LockCall.Harmless program only owns_drift owns_handle

theorem harmless_plockCheck (self : Int) (path : Path) :
    Requests LockCall.Harmless (plockCheck self path) := by
  refine ⟨trivial, fun reply => ?_⟩
  dsimp only
  split
  · trivial
  refine ⟨trivial, fun (pid, errno) => ?_⟩
  dsimp only
  split
  · trivial
  split
  · trivial
  refine ⟨trivial, fun reply => ?_⟩
  dsimp only
  split
  · refine ⟨trivial, fun reply => ?_⟩
    cases reply <;> trivial
  · trivial

/-- What has been made once a routine returned for the lock. -/
def madeBy (made : Path → Prop) (lockname : Path) (rc : Plock) (path : Path) : Prop :=
  made path ∨ rc = .ok ∧ path = lockname

/-- The end of `plock_link`. -/
theorem owns_plockLinkEnd (lockname tmpname : Path) (rc : Plock) :
    LockTriple (Owns base (madeBy made lockname rc)) (plockLinkEnd tmpname rc)
      (fun rc => Owns base (madeBy made lockname rc)) :=
  lockTriple_call _ _ (fun _ => Owns base (madeBy made lockname rc)) owns_drift
    (fun disk => owns_handle disk (.unlink tmpname) trivial)
    (fun _ => triple_done rc (fun _ owns => owns))

/-- As `owns_plockLinkEnd`, with no lock made. -/
theorem owns_plockLinkEnd_plain (lockname tmpname : Path) (rc : Plock) :
    LockTriple (Owns base made) (plockLinkEnd tmpname rc)
      (fun rc => Owns base (madeBy made lockname rc)) :=
  triple_weaken (owns_plockLinkEnd lockname tmpname rc)
    (fun _ owns => owns.weaken (fun _ here => .inl here)) (fun _ _ owns => owns)

/-- Linking the lock makes it ours if it succeeds, and only in a directory that
lets us remove it again. -/
theorem owns_link (lockname tmpname : Path) (next : Option Errno → LockProgram Plock)
    (linked : next none = plockLinkEnd tmpname .ok)
    (failed : ∀ errno, LockTriple (Owns base made) (next (some errno))
      (fun rc => Owns base (madeBy made lockname rc))) :
    LockTriple (Owns base made) (.call (.link tmpname lockname) next)
      (fun rc => Owns base (madeBy made lockname rc)) := by
  refine lockTriple_call (.link tmpname lockname) next
    (fun (reply : Option Errno) =>
      Owns base (fun path => made path ∨ reply = none ∧ path = lockname))
    owns_drift (fun disk owns => ?_) (fun reply => ?_)
  · have unmade := fun errno => (owns.setErrno errno).weaken
      (fun path here => (.inl here : made path ∨ some errno = none ∧ path = lockname))
    have taken : ∀ content, (disk.dirs lockname.dir).changes = true →
        Owns base (fun path => made path ∨ (none : Option Errno) = none ∧ path = lockname)
          (disk.put lockname content) := by
      intro content room
      refine (owns.weaken (fun path here => .inl here)).put lockname content ?_
      intro name ext same ours
      exact ⟨.inr ⟨rfl, rfl⟩, owns.dirs ▸ room⟩
    simp only [Disk.handle, Disk.fail]
    split
    · exact unmade _
    split
    · exact unmade _
    split
    · exact unmade _
    · exact unmade _
    · rename_i kind
      exact taken _ (by simp [kind, Directory.changes])
    · rename_i kind
      exact taken _ (by simp [kind, Directory.changes])
  · cases reply with
    | none =>
      rw [linked]
      exact triple_weaken (owns_plockLinkEnd lockname tmpname .ok)
        (fun _ owns => owns.weaken (fun _ here => here.imp_right (fun there => ⟨rfl, there.2⟩)))
        (fun _ _ owns => owns)
    | some errno =>
      exact triple_weaken (failed errno)
        (fun _ owns => owns.weaken (fun _ here => here.resolve_right (by simp)))
        (fun _ _ owns => owns)

/-- `plock_link` makes the lock ours only where it says so. -/
theorem owns_plockLink (self : Int) (lockname tmpname : Path) :
    LockTriple (Owns base made) (plockLink self lockname tmpname)
      (fun rc => Owns base (madeBy made lockname rc)) := by
  have ended : ∀ rc, LockTriple (Owns base made) (plockLinkEnd tmpname rc)
      (fun rc => Owns base (madeBy made lockname rc)) := owns_plockLinkEnd_plain lockname tmpname
  refine owns_link lockname tmpname _ rfl (fun errno => ?_)
  cases errno with
  | eexist =>
    refine triple_bind _ _ _ (owns_requests _ (harmless_plockCheck self lockname)) (fun rc => ?_)
    cases rc with
    | ok => exact owns_link lockname tmpname _ rfl (fun _ => ended .error)
    | ourlock => exact ended .ok
    | exist => exact ended .exist
    | error => exact ended .error
  | enoent => exact ended .error
  | esrch => exact ended .error
  | other => exact ended .error

/-- Writing the temporary file touches no busy file. -/
theorem harmless_plockWrite (dir : Bytes) (pid : Int) :
    Requests LockCall.Harmless (plockWrite (.scratch dir pid)) := by
  refine ⟨trivial, fun reply => ?_⟩
  cases reply with
  | some errno => trivial
  | none =>
    refine ⟨trivial, fun reply => ?_⟩
    cases reply with
    | none => trivial
    | some errno => exact ⟨trivial, fun _ => trivial⟩

/-- `plock_create` makes the lock ours only where it says so. -/
theorem owns_plockCreate (self : Int) (name : Bytes) (ext : BusyExt) :
    LockTriple (Owns base made) (plockCreate self name ext)
      (fun rc => Owns base (madeBy made (.busy name ext) rc)) := by
  have failing : ∀ rc, LockTriple (Owns base made) (.done rc : LockProgram Plock)
      (fun rc => Owns base (madeBy made (.busy name ext) rc)) :=
    fun rc => triple_done rc (fun _ owns => owns.weaken (fun _ here => .inl here))
  unfold plockCreate
  split
  · exact failing .error
  · rename_i dir placed
    refine lockTriple_call (.mktemp dir) _
      (fun (reply : Option Path) disk => Owns base made disk ∧
        ∀ path, reply = some path → ∃ pid, path = .scratch dir pid)
      owns_drift (fun disk owns => ⟨owns, ?_⟩) (fun reply => ?_)
    · rintro path same
      exact ⟨disk.self, (Option.some.inj same).symm⟩
    · cases reply with
      | none => exact triple_pure (fun _ => failing .error)
      | some tmpname =>
        refine triple_pure (fun named => ?_)
        obtain ⟨pid, rfl⟩ := named tmpname rfl
        refine triple_bind _ _ _ (owns_requests _ (harmless_plockWrite dir pid)) (fun rc => ?_)
        unfold plockCreateWritten
        split
        · exact owns_plockLink self _ _
        · exact failing rc

/-- A lock that is not ours is not one of those made. -/
theorem Owns.without (owns : Owns base made disk) (lockname : Path)
    (absent : disk.Mine lockname → (base.dirs lockname.dir).changes = false) :
    Owns base (fun path => made path ∧ path ≠ lockname) disk := by
  refine ⟨owns.dirs, owns.self, fun name ext mine => ?_⟩
  rcases owns.mine name ext mine with before | ⟨here, room⟩
  · exact .inl before
  · refine .inr ⟨⟨here, ?_⟩, room⟩
    rintro rfl
    simp [absent mine] at room

/-- Reading a lock of ours reports our number and changes nothing. -/
theorem handle_read_mine (disk : Disk) (path : Path)
    (mine : (disk.handle (.read path)).1.Mine path) :
    (disk.handle (.read path)).2.1 = disk.self := by
  have found : disk.get path = some (.number disk.self) := by
    simp only [Disk.handle] at mine
    split at mine <;> exact mine
  simp only [Disk.handle]
  split
  · simp_all
  · rename_i pid carried
    rw [found] at carried
    exact (Content.number.inj (Option.some.inj carried)).symm
  · simp_all
  · simp_all

/-- Removing our lock leaves it ours only where the directory forbids the
removal. -/
theorem owns_unlink (owns : Owns base made disk) (lockname : Path) :
    Owns base (fun path => made path ∧ path ≠ lockname)
      (disk.handle (.unlink lockname)).1 := by
  refine (owns_handle disk (.unlink lockname) trivial owns).without lockname (fun mine => ?_)
  simp only [Disk.handle, Disk.fail] at mine
  split at mine
  · rename_i absent
    simp [Disk.Mine, absent] at mine
  · rename_i present
    split at mine
    · rename_i closed
      rw [← owns.dirs, closed]
      rfl
    · rw [Disk.Mine, Disk.get_put_self disk _ _ (disk.present_of_get _ present)] at mine
      cases mine

/-- `plock_remove` takes our lock away wherever it may have been made. -/
theorem owns_plockRemove (lockname : Path) :
    LockTriple (Owns base made) (plockRemove base.self lockname)
      (fun _ => Owns base (fun path => made path ∧ path ≠ lockname)) := by
  refine lockTriple_call (.read lockname) _
    (fun reply disk => Owns base made disk ∧
      (reply.1 ≠ base.self → Owns base (fun path => made path ∧ path ≠ lockname) disk))
    owns_drift (fun disk owns => ?_) (fun (pid, errno) => ?_)
  · have kept := owns_handle disk (.read lockname) trivial owns
    refine ⟨kept, fun foreign => kept.without lockname (fun mine => absurd ?_ foreign)⟩
    rw [← owns.self]
    exact handle_read_mine disk lockname mine
  · dsimp only
    split
    · rename_i zero
      exact triple_done 1 (fun disk here => here.2 (zero ▸ base.self_ne_zero.symm))
    split
    · refine lockTriple_call (.unlink lockname) _
        (fun _ => Owns base (fun path => made path ∧ path ≠ lockname))
        (fun before after drifted here => ?_) (fun disk here => owns_unlink here.1 lockname)
        (fun reply => ?_)
      · exact ⟨owns_drift _ _ drifted here.1, fun other => owns_drift _ _ drifted (here.2 other)⟩
      · cases reply with
        | none => exact triple_done 0 (fun _ owns => owns)
        | some errno => exact triple_done 1 (fun _ owns => owns)
    · rename_i other
      exact triple_done 0 (fun disk here => here.2 other)

/-- The locks of a list of names. -/
def locksOf (ext : BusyExt) (names : List Bytes) (path : Path) : Prop :=
  ∃ name ∈ names, path = .busy name ext

/-- Taking back the locks of a list leaves none of them made. -/
theorem owns_unlinkAll (ext : BusyExt) (names : List Bytes) :
    LockTriple (Owns base made) (outBsyFileUnlinkAll base.self ext names)
      (fun _ => Owns base (fun path => made path ∧ ¬ locksOf ext names path)) := by
  induction names generalizing made with
  | nil => exact triple_done () (fun _ owns => owns.weaken (fun _ here => ⟨here, by simp [locksOf]⟩))
  | cons name rest inductionHypothesis =>
    refine triple_bind _ _ _ (owns_plockRemove (.busy name ext)) (fun _ => ?_)
    refine triple_weaken inductionHypothesis (fun _ owns => owns) (fun _ _ owns => ?_)
    refine owns.weaken (fun path here => ⟨here.1.1, ?_⟩)
    rintro ⟨other, member, rfl⟩
    rcases List.mem_cons.mp member with rfl | later
    · exact here.1.2 rfl
    · exact here.2 ⟨other, later, rfl⟩

/-- Making the locks of a list makes those it reports. -/
theorem owns_makeAll (ext : BusyExt) (make : Bytes → LockProgram Plock)
    (makes : ∀ (made : Path → Prop) name, LockTriple (Owns base made) (make name)
      (fun rc => Owns base (madeBy made (.busy name ext) rc)))
    (names locked : List Bytes) :
    LockTriple (Owns base (locksOf ext locked)) (outBsyFileMakeAll make names locked)
      (fun result => Owns base (locksOf ext result.2)) := by
  induction names generalizing locked with
  | nil => exact triple_done (false, locked) (fun _ owns => owns)
  | cons name rest inductionHypothesis =>
    have unmade : ∀ rc, rc ≠ .ok → ∀ disk,
        Owns base (madeBy (locksOf ext locked) (.busy name ext) rc) disk →
        Owns base (locksOf ext locked) disk :=
      fun rc failed disk owns =>
        owns.weaken (fun _ here => here.resolve_right (fun made => failed made.1))
    refine triple_bind _ _ _ (makes _ name) (fun rc => ?_)
    cases rc with
    | ok =>
      refine triple_weaken (inductionHypothesis (locked ++ [name])) (fun disk owns => ?_)
        (fun _ _ owns => owns)
      refine owns.weaken (fun path here => ?_)
      rcases here with ⟨other, member, same⟩ | ⟨_, same⟩
      · exact ⟨other, List.mem_append_left _ member, same⟩
      · exact ⟨name, by simp, same⟩
    | exist => exact triple_done (true, locked) (unmade _ (by simp))
    | error =>
      exact triple_weaken (inductionHypothesis locked) (unmade _ (by simp)) (fun _ _ owns => owns)
    | ourlock =>
      exact triple_weaken (inductionHypothesis locked) (unmade _ (by simp)) (fun _ _ owns => owns)

/-- No busy file is ours that was not ours before. -/
def Disk.NoneMade (base after : Disk) : Prop :=
  ∀ name ext, after.Mine (.busy name ext) → base.Mine (.busy name ext)

/-- Making the locks of a list and taking them back makes none. -/
theorem noneMade_of_unlinked (ext : BusyExt) (names : List Bytes)
    (owns : Owns base (fun path => locksOf ext names path ∧ ¬ locksOf ext names path) disk) :
    base.NoneMade disk :=
  fun name ext mine => (owns.mine name ext mine).resolve_right (fun here => here.1.2 here.1.1)

theorem harmless_checkAny (self : Int) (ext : BusyExt) (names : List Bytes) :
    Requests LockCall.Harmless (outBsyFileCheckAny self ext names) := by
  induction names with
  | nil => trivial
  | cons name rest inductionHypothesis =>
    refine requests_bind _ _ _ (harmless_plockCheck self _) (fun rc => ?_)
    split
    · trivial
    · exact inductionHypothesis

/-- A failed attempt to make the locks of the names leaves none of them. -/
theorem owns_lockNames (names : List Bytes) (csyLocks : Bool) :
    LockTriple (Owns base (locksOf (lockext csyLocks) []))
      (outBsyLockNames base.self names csyLocks)
      (fun result disk => result.1 ≠ 0 → base.NoneMade disk) := by
  have checks : ∀ (made : Path → Prop) (skip : Bool) (ext : BusyExt),
      LockTriple (Owns base made)
        (if skip = true then .done true else outBsyFileCheckAny base.self ext names)
        (fun _ => Owns base made) := by
    intro made skip ext
    refine owns_requests _ ?_
    split
    · trivial
    · exact harmless_checkAny base.self ext names
  refine triple_bind _ _ _ (checks _ false .bsy) (fun busy => ?_)
  refine triple_bind _ _ _ (checks _ busy .csy) (fun isfailed => ?_)
  refine triple_bind _ _ (fun made => Owns base (locksOf (lockext csyLocks) made.2)) ?_
    (fun made => ?_)
  · split
    · exact triple_done (true, []) (fun _ owns => owns)
    · exact owns_makeAll (lockext csyLocks) _
        (fun _ name => owns_plockCreate base.self name (lockext csyLocks)) names []
  · refine triple_bind _ _ _ (checks _ made.1 .bsy) (fun isfailed => ?_)
    split
    · refine triple_bind _ _ _ (owns_unlinkAll (lockext csyLocks) made.2) (fun _ => ?_)
      exact triple_done (-1, []) (fun _ owns _ => noneMade_of_unlinked _ _ owns)
    · exact triple_done (0, made.2) (fun _ _ failed => absurd rfl failed)

/-- A failed conversion leaves no busy file it made. -/
theorem owns_convert (names : List Bytes) :
    LockTriple (Owns base (locksOf .bsy [])) (outBsyConvertCsyToBsy base.self names)
      (fun rc disk => rc ≠ 0 → base.NoneMade disk) := by
  refine triple_bind _ _ _ (owns_makeAll .bsy _
    (fun _ name => owns_plockLink base.self (.busy name .bsy) (.busy name .csy)) names [])
    (fun made => ?_)
  split
  · refine triple_bind _ _ _ (owns_unlinkAll .bsy made.2) (fun _ => ?_)
    exact triple_done 1 (fun _ owns _ => noneMade_of_unlinked _ _ owns)
  · exact triple_done 0 (fun _ _ failed => absurd rfl failed)

end Rollback

/-- Whatever others do between the system calls, a failing `out_bsy_lock` leaves
no busy file that it made, and the list of locked nodes as it was. -/
theorem outBsyLock_failure (base : Disk) (conf : OutboundConf) (bsylist : List BsyEntry)
    (addr : Faddr) (csyLocks : Bool) :
    LockTriple (fun disk => disk = base) (outBsyLock base.self conf bsylist addr csyLocks)
      (fun result disk => result.1 ≠ 0 → base.NoneMade disk ∧ result.2 = bsylist) := by
  have start : ∀ ext disk, disk = base → Owns base (locksOf ext []) disk := by
    rintro ext disk rfl
    exact ⟨rfl, rfl, fun _ _ mine => .inl mine⟩
  unfold outBsyLock
  split
  · rename_i entry found
    refine triple_bind _ _ _
      (triple_weaken (owns_convert entry.names) (start .bsy) (fun _ _ ended => ended)) (fun rc => ?_)
    refine triple_done _ (fun disk ended failed => ⟨ended failed, ?_⟩)
    simp only [failed, if_false]
  · refine triple_bind _ _ _
      (triple_weaken (owns_lockNames (outNames conf addr) csyLocks) (start (lockext csyLocks))
        (fun _ _ ended => ended)) (fun (rc, locked) => ?_)
    refine triple_done _ (fun disk ended failed => ⟨ended failed, ?_⟩)
    simp only [failed, if_false]

end Binkleyforce
