import Binkleyforce.Outbound.Busy

/-!
# When locking a node is all or nothing

The exact outcome of `out_bsy_lock` on a disk that nobody else changes. Any
error of `plock_create` counts as an outbound that does not exist. So a lock
that does not parse, or a directory in which our lock cannot be made, is passed
over in silence, and the call succeeds without the lock.
-/

namespace Binkleyforce

open Library Library.Program

/-- Somebody else holds the file, as far as can be told from it. -/
def Disk.HeldByOther (disk : Disk) (path : Path) : Prop :=
  disk.status path = .live ∨ disk.status path = .unclear

instance (disk : Disk) (path : Path) : Decidable (disk.HeldByOther path) :=
  inferInstanceAs (Decidable (_ ∨ _))

instance (disk : Disk) (path : Path) : Decidable (disk.Mine path) :=
  inferInstanceAs (Decidable (_ = _))

/-- The files of one disk after another was tidied: stale locks may be gone. -/
structure Disk.Tidied (disk after : Disk) : Prop where
  dirs : after.dirs = disk.dirs
  self : after.self = disk.self
  alive : after.alive = disk.alive
  busy : ∀ name ext, after.get (.busy name ext) = disk.get (.busy name ext) ∨
    disk.status (.busy name ext) = .stale ∧ after.get (.busy name ext) = none

section Tidied

variable {disk middle after : Disk}

/-- The status of a path depends on the file, our number and the processes. -/
theorem status_congr (path other : Path) (self : after.self = disk.self)
    (alive : after.alive = disk.alive) (same : after.get path = disk.get other) :
    after.status path = disk.status other := by
  simp only [Disk.status, Disk.statusOf, same, self, alive]

theorem Disk.Tidied.refl (disk : Disk) : disk.Tidied disk :=
  ⟨rfl, rfl, rfl, fun _ _ => .inl rfl⟩

/-- The status of a lock after tidying. -/
theorem Disk.Tidied.status (tidied : disk.Tidied after) (name : Bytes) (ext : BusyExt) :
    after.status (.busy name ext) = disk.status (.busy name ext) ∨
      disk.status (.busy name ext) = .stale ∧ after.status (.busy name ext) = .vacant := by
  refine (tidied.busy name ext).imp (fun same => ?_) (fun gone => ⟨gone.1, ?_⟩)
  · exact status_congr _ _ tidied.self tidied.alive same
  · exact (after.status_vacant_iff _).mpr gone.2

theorem Disk.Tidied.trans (first : disk.Tidied middle) (second : middle.Tidied after) :
    disk.Tidied after where
  dirs := second.dirs.trans first.dirs
  self := second.self.trans first.self
  alive := second.alive.trans first.alive
  busy name ext := by
    rcases second.busy name ext with same | ⟨stale, gone⟩
    · rw [same]
      exact first.busy name ext
    · rcases first.status name ext with kept | ⟨_, vacant⟩
      · exact .inr ⟨kept.symm.trans stale, gone⟩
      · rw [vacant] at stale
        cases stale

/-- Tidying neither makes nor removes a lock of a status other than stale and
vacant. -/
theorem Disk.Tidied.status_iff (tidied : disk.Tidied after) (name : Bytes) (ext : BusyExt)
    (status : Status) (kept : status ≠ .stale) (taken : status ≠ .vacant) :
    after.status (.busy name ext) = status ↔ disk.status (.busy name ext) = status := by
  rcases tidied.status name ext with same | ⟨stale, vacant⟩
  · rw [same]
  · rw [stale, vacant]
    exact ⟨fun same => absurd same.symm taken, fun same => absurd same.symm kept⟩

end Tidied

/-- `plock_check` tidies, and tells whether another holds the lock. -/
theorem tidied_plockCheck (disk : Disk) (name : Bytes) (ext : BusyExt) :
    let result := exec Disk.handle (plockCheck disk.self (.busy name ext)) disk
    disk.Tidied result.1 ∧ (result.2 = .exist ↔ disk.status (.busy name ext) = .live) := by
  have quiet : ∀ errno, disk.Tidied (disk.setErrno errno) :=
    fun errno => ⟨rfl, rfl, rfl, fun _ _ => .inl rfl⟩
  rw [exec_plockCheck]
  cases status : disk.status (.busy name ext) with
  | vacant => exact ⟨quiet _, by simp⟩
  | own => exact ⟨.refl disk, by simp⟩
  | live => exact ⟨.refl disk, by simp⟩
  | stale =>
    dsimp only
    split
    · exact ⟨quiet _, by simp⟩
    · refine ⟨⟨rfl, rfl, rfl, fun other also => ?_⟩, by simp⟩
      by_cases same : Path.busy other also = .busy name ext
      · rw [same]
        have found : disk.get (.busy name ext) ≠ none := by
          rw [ne_eq, ← disk.status_vacant_iff, status]
          simp
        exact .inr ⟨status, Disk.get_put_self _ _ _ (disk.present_of_get _ found)⟩
      · exact .inl (Disk.get_put_other _ _ _ _ same)
  | unclear =>
    dsimp only
    split
    · exact ⟨quiet _, by simp⟩
    · refine ⟨.refl disk, ?_⟩
      split <;> simp

/-- Looking for a lock of somebody else finds one if there is one. -/
theorem exec_checkAny (disk : Disk) (ext : BusyExt) (names : List Bytes) :
    let result := exec Disk.handle (outBsyFileCheckAny disk.self ext names) disk
    disk.Tidied result.1 ∧
      (result.2 = true ↔ ∃ name ∈ names, disk.status (.busy name ext) = .live) := by
  induction names generalizing disk with
  | nil => exact ⟨.refl disk, by simp [outBsyFileCheckAny]⟩
  | cons name rest inductionHypothesis =>
    obtain ⟨tidied, held⟩ := tidied_plockCheck disk name ext
    simp only [outBsyFileCheckAny, exec_bind]
    split
    · rename_i exist
      exact ⟨tidied, by simpa using .inl (held.mp exist)⟩
    · rename_i free
      have later := inductionHypothesis
        (exec Disk.handle (plockCheck disk.self (.busy name ext)) disk).1
      rw [tidied.self] at later
      refine ⟨tidied.trans later.1, later.2.trans ?_⟩
      simp only [List.mem_cons, exists_eq_or_imp,
        fun other => tidied.status_iff other ext .live (by simp) (by simp)]
      exact ⟨.inr, fun here => here.resolve_left (fun live => free (held.mpr live))⟩

/-- The path can be locked: its temporary file can be made, and nobody else
holds it. -/
def Disk.Lockable (disk : Disk) (name : Bytes) (ext : BusyExt) : Prop :=
  disk.Creatable name ∧ ¬ disk.HeldByOther (.busy name ext)

/-- The busy files after locks were made for the names: those that could be made
are ours, and the locks of live processes are the same. -/
structure Disk.Locked (disk after : Disk) (names : List Bytes) (ext : BusyExt) : Prop where
  dirs : after.dirs = disk.dirs
  self : after.self = disk.self
  live : ∀ name also, after.status (.busy name also) = .live ↔ disk.status (.busy name also) = .live
  held : ∀ name also, after.HeldByOther (.busy name also) ↔ disk.HeldByOther (.busy name also)
  mine : ∀ name also, after.Mine (.busy name also) ↔
    disk.Mine (.busy name also) ∨ also = ext ∧ name ∈ names ∧ disk.Lockable name ext

section Locked

variable {disk middle after : Disk} {name : Bytes} {ext : BusyExt}

/-- A lock of ours has the status of one. -/
theorem mine_iff_own (disk : Disk) (path : Path) : disk.Mine path ↔ disk.status path = .own :=
  (disk.status_own_iff path).symm

/-- Locks of one name: a step of making the locks of a list. -/
theorem locked_of_created {rc : Plock} (created : Created disk after name ext rc)
    (frame : Disk.Frame disk after (createTouches disk name ext))
    (free : disk.status (.busy name ext) ≠ .live) :
    rc ≠ .exist ∧ disk.Locked after [name] ext := by
  have others : ∀ other also, Path.busy other also ≠ .busy name ext →
      after.get (.busy other also) = disk.get (.busy other also) := by
    intro other also apart
    refine frame.others _ ?_
    rintro (same | ⟨dir, same⟩)
    · exact apart same
    · cases same
  have elsewhere : ∀ other also, Path.busy other also ≠ .busy name ext →
      after.status (.busy other also) = disk.status (.busy other also) :=
    fun other also apart => status_congr _ _ frame.self frame.alive (others other also apart)
  have here : rc ≠ .exist ∧
      (after.status (.busy name ext) = .live ↔ disk.status (.busy name ext) = .live) ∧
      (after.HeldByOther (.busy name ext) ↔ disk.HeldByOther (.busy name ext)) ∧
      (after.Mine (.busy name ext) ↔ disk.Mine (.busy name ext) ∨ disk.Lockable name ext) := by
    cases created with
    | made room clear now =>
      have own : after.status (.busy name ext) = .own :=
        (after.status_own_iff _).mpr (frame.self ▸ now)
      have lockable : disk.Lockable name ext := ⟨room, fun held => held.elim clear.1 clear.2⟩
      refine ⟨by simp, ?_, ?_, ?_⟩
      · simp [own, clear.1]
      · simp [Disk.HeldByOther, own, clear.1, clear.2]
      · simp [mine_iff_own, own, lockable]
    | busy room live kept => exact absurd live free
    | failed reason kept =>
      have same := status_congr (.busy name ext) (.busy name ext) frame.self frame.alive kept
      have unlockable : ¬ disk.Lockable name ext := by
        rintro ⟨room, unheld⟩
        exact reason.elim (fun closed => closed room) (fun unclear => unheld (.inr unclear))
      refine ⟨by simp, by rw [same], by simp only [Disk.HeldByOther, same], ?_⟩
      simp only [mine_iff_own, same, unlockable, or_false]
  refine ⟨here.1, frame.dirs, frame.self, fun other also => ?_, fun other also => ?_,
    fun other also => ?_⟩
  · by_cases same : Path.busy other also = .busy name ext
    · rw [same]
      exact here.2.1
    · rw [elsewhere other also same]
  · by_cases same : Path.busy other also = .busy name ext
    · rw [same]
      exact here.2.2.1
    · simp only [Disk.HeldByOther, elsewhere other also same]
  · by_cases same : Path.busy other also = .busy name ext
    · obtain ⟨rfl, rfl⟩ := Path.busy.inj same
      simpa using here.2.2.2
    · have apart : ¬ (also = ext ∧ other ∈ [name] ∧ disk.Lockable other ext) := by
        rintro ⟨rfl, member, _⟩
        exact same (by rw [List.mem_singleton.mp member])
      simp only [apart, or_false, mine_iff_own, elsewhere other also same]

/-- Making locks keeps what can be locked. -/
theorem Disk.Locked.lockable_iff {names : List Bytes} (locked : disk.Locked after names ext)
    (other : Bytes) (also : BusyExt) : after.Lockable other also ↔ disk.Lockable other also := by
  simp only [Disk.Lockable, Disk.Creatable, locked.dirs, locked.held]

/-- Making the locks of one list after another. -/
theorem Disk.Locked.append {first second : List Bytes} (left : disk.Locked middle first ext)
    (right : middle.Locked after second ext) : disk.Locked after (first ++ second) ext where
  dirs := right.dirs.trans left.dirs
  self := right.self.trans left.self
  live other also := (right.live other also).trans (left.live other also)
  held other also := (right.held other also).trans (left.held other also)
  mine other also := by
    rw [right.mine, left.mine, left.lockable_iff, List.mem_append]
    tauto

/-- Making all locks, where no live process holds one. -/
theorem exec_makeAll (disk : Disk) (names locked : List Bytes)
    (free : ∀ name ∈ names, disk.status (.busy name ext) ≠ .live) :
    let result := exec Disk.handle
      (outBsyFileMakeAll (fun name => plockCreate disk.self name ext) names locked) disk
    result.2.1 = false ∧ disk.Locked result.1 names ext := by
  induction names generalizing disk locked with
  | nil =>
    exact ⟨rfl, rfl, rfl, fun _ _ => .rfl, fun _ _ => .rfl,
      fun _ _ => by simp [outBsyFileMakeAll]⟩
  | cons name rest inductionHypothesis =>
    obtain ⟨created, frame⟩ := exec_plockCreate disk name ext
    obtain ⟨unopposed, first⟩ := locked_of_created created frame (free name List.mem_cons_self)
    have onward := fun locked => inductionHypothesis
      (exec Disk.handle (plockCreate disk.self name ext) disk).1 locked
      (fun other member => by
        rw [ne_eq, first.live]
        exact free other (List.mem_cons_of_mem _ member))
    rw [first.self] at onward
    simp only [outBsyFileMakeAll, exec_bind]
    split
    · exact ⟨(onward _).1, first.append (onward _).2⟩
    · rename_i opposed
      exact absurd opposed unopposed
    · exact ⟨(onward _).1, first.append (onward _).2⟩
    · exact ⟨(onward _).1, first.append (onward _).2⟩

end Locked

/-- Some live process holds a lock of one of the names. -/
def Disk.LiveLock (disk : Disk) (names : List Bytes) : Prop :=
  ∃ name ∈ names, ∃ ext, disk.status (.busy name ext) = .live

section Tidied

variable {disk after : Disk}

theorem Disk.Tidied.mine_iff (tidied : disk.Tidied after) (name : Bytes) (ext : BusyExt) :
    after.Mine (.busy name ext) ↔ disk.Mine (.busy name ext) := by
  simp only [mine_iff_own, tidied.status_iff name ext .own (by simp) (by simp)]

theorem Disk.Tidied.lockable_iff (tidied : disk.Tidied after) (name : Bytes) (ext : BusyExt) :
    after.Lockable name ext ↔ disk.Lockable name ext := by
  simp only [Disk.Lockable, Disk.Creatable, tidied.dirs, Disk.HeldByOther,
    tidied.status_iff name ext .live (by simp) (by simp),
    tidied.status_iff name ext .unclear (by simp) (by simp)]

/-- `out_bsy_lock` gives up at once on a lock of a live process. -/
theorem exec_lockNames_busy (disk : Disk) (names : List Bytes) (csyLocks : Bool)
    (live : disk.LiveLock names) :
    (exec Disk.handle (outBsyLockNames disk.self names csyLocks) disk).2.1 ≠ 0 := by
  obtain ⟨name, member, ext, held⟩ := live
  obtain ⟨tidied, bsy⟩ := exec_checkAny disk .bsy names
  obtain ⟨_, csy⟩ := exec_checkAny
    (exec Disk.handle (outBsyFileCheckAny disk.self .bsy names) disk).1 .csy names
  rw [tidied.self] at csy
  have found : (exec Disk.handle
      (if (exec Disk.handle (outBsyFileCheckAny disk.self .bsy names) disk).2 = true then .done true
        else outBsyFileCheckAny disk.self .csy names)
      (exec Disk.handle (outBsyFileCheckAny disk.self .bsy names) disk).1).2 = true := by
    split
    · rfl
    · rename_i unseen
      refine csy.mpr ⟨name, member, ?_⟩
      rw [tidied.status_iff name .csy .live (by simp) (by simp)]
      cases ext with
      | bsy => exact absurd (bsy.mpr ⟨name, member, held⟩) unseen
      | csy => exact held
  simp only [outBsyLockNames, exec_bind, found, if_true, exec_done]
  simp

/-- Looking for locks of live processes where there are none. -/
theorem exec_checkAny_free (disk : Disk) (self : Int) (ext : BusyExt) (names : List Bytes)
    (ours : disk.self = self) (free : ∀ name ∈ names, disk.status (.busy name ext) ≠ .live) :
    ∃ after, exec Disk.handle (outBsyFileCheckAny self ext names) disk = (after, false) ∧
      disk.Tidied after := by
  subst ours
  obtain ⟨tidied, held⟩ := exec_checkAny disk ext names
  refine ⟨_, Prod.ext rfl ?_, tidied⟩
  rw [← Bool.not_eq_true, held]
  rintro ⟨name, member, live⟩
  exact free name member live

/-- Without one it succeeds, and our locks are those that could be made. -/
theorem exec_lockNames_free (disk : Disk) (names : List Bytes) (csyLocks : Bool)
    (free : ¬ disk.LiveLock names) :
    let result := exec Disk.handle (outBsyLockNames disk.self names csyLocks) disk
    result.2.1 = 0 ∧ ∀ name, result.1.Mine (.busy name (lockext csyLocks)) ↔
      disk.Mine (.busy name (lockext csyLocks)) ∨
        name ∈ names ∧ disk.Lockable name (lockext csyLocks) := by
  intro result
  have unlocked : ∀ name ∈ names, ∀ ext, disk.status (.busy name ext) ≠ .live :=
    fun name member ext live => free ⟨name, member, ext, live⟩
  obtain ⟨seen, bsy, first⟩ := exec_checkAny_free disk disk.self .bsy names rfl
    (fun name member => unlocked name member .bsy)
  have unseen : ∀ name ∈ names, ∀ ext, seen.status (.busy name ext) ≠ .live := by
    intro name member ext
    rw [ne_eq, first.status_iff name ext .live (by simp) (by simp)]
    exact unlocked name member ext
  obtain ⟨clear, csy, second⟩ := exec_checkAny_free seen disk.self .csy names first.self
    (fun name member => unseen name member .csy)
  have tidied := first.trans second
  have opened : ∀ name ∈ names, clear.status (.busy name (lockext csyLocks)) ≠ .live := by
    intro name member
    rw [ne_eq, tidied.status_iff name _ .live (by simp) (by simp)]
    exact unlocked name member _
  obtain ⟨unopposed, locked⟩ := exec_makeAll clear names [] opened
  rw [tidied.self] at unopposed locked
  obtain ⟨after, again, last⟩ := exec_checkAny_free _ disk.self .bsy names
    (locked.self.trans tidied.self) (fun name member => by
      rw [ne_eq, locked.live, tidied.status_iff name .bsy .live (by simp) (by simp)]
      exact unlocked name member .bsy)
  have ended : result.1 = after ∧ result.2.1 = 0 := by
    simp only [result, outBsyLockNames, exec_bind, bsy, csy, Bool.false_eq_true, if_false,
      unopposed, again, exec_done, and_self]
  refine ⟨ended.2, fun name => ?_⟩
  rw [ended.1, last.mine_iff, locked.mine, tidied.mine_iff, tidied.lockable_iff]
  simp

end Tidied

/-- The control file of the name meets a full lock of a live process. -/
def Disk.Blocks (disk : Disk) (name : Bytes) : Prop :=
  disk.get (.busy name .csy) ≠ none ∧ disk.status (.busy name .bsy) = .live

instance (disk : Disk) (name : Bytes) : Decidable (disk.Blocks name) :=
  inferInstanceAs (Decidable (_ ∧ _))

/-- The control file of the name is ours and can be turned into a full lock. -/
def Disk.Convertible (disk : Disk) (name : Bytes) : Prop :=
  (disk.dirs (Path.busy name .bsy).dir).changes = true ∧ disk.Mine (.busy name .csy) ∧
    (disk.status (.busy name .bsy) = .vacant ∨ disk.status (.busy name .bsy) = .stale)

section Convert

variable {disk after : Disk} {name : Bytes} {rc : Plock}

/-- One conversion: it is refused where the lock of a live process is in the
way; else it is done where it can be, and is not to be done again. -/
theorem converted (result : LinkResult disk after (.busy name .bsy) (.busy name .csy) rc) :
    (rc = .exist ↔ disk.Blocks name) ∧
      (rc ≠ .exist → ¬ after.Blocks name ∧ ¬ after.Convertible name ∧
        (after.Mine (.busy name .bsy) ↔
          disk.Mine (.busy name .bsy) ∨ disk.Convertible name)) := by
  obtain ⟨linked, frame, consumed⟩ := result
  have status := @status_congr disk after (.busy name .bsy) (.busy name .bsy)
    frame.self frame.alive
  cases linked with
  | ours present own kept =>
    have mine : disk.Mine (.busy name .bsy) := (mine_iff_own _ _).mpr own
    refine ⟨by simp [Disk.Blocks, own], fun _ => ⟨?_, ?_, ?_⟩⟩
    · simp [Disk.Blocks, status kept, own]
    · simp [Disk.Convertible, status kept, own]
    · simp [mine_iff_own, status kept, own]
  | made present free room now =>
    have gone : after.get (.busy name .csy) = none :=
      consumed.resolve_right (fun stays => Bool.noConfusion (stays.2.symm.trans room))
    have foreign : ¬ disk.Mine (.busy name .bsy) := by
      rw [mine_iff_own]
      rcases free with vacant | stale
      · simp [vacant]
      · simp [stale]
    refine ⟨?_, fun _ => ⟨?_, ?_, ?_⟩⟩
    · rcases free with vacant | stale
      · simp [Disk.Blocks, vacant]
      · simp [Disk.Blocks, stale]
    · simp [Disk.Blocks, gone]
    · simp [Disk.Convertible, Disk.Mine, gone]
    · simp only [foreign, false_or, Disk.Convertible, room, free, true_and, and_true]
      simp only [Disk.Mine, now, frame.self]
  | busy present live kept => exact ⟨⟨fun _ => ⟨present, live⟩, fun _ => rfl⟩, fun other => absurd rfl other⟩
  | failed reason kept =>
    have unconvertible : ¬ disk.Convertible name := by
      rintro ⟨room, mine, free⟩
      rcases reason with absent | unclear | ⟨_, closed⟩
      · simp [Disk.Mine, absent] at mine
      · simp [unclear] at free
      · simp [room] at closed
    have unblocked : ¬ disk.Blocks name := by
      rintro ⟨present, live⟩
      rcases reason with absent | unclear | ⟨vacant | stale, _⟩
      · exact present absent
      · simp [unclear] at live
      · simp [vacant] at live
      · simp [stale] at live
    have less : ∀ content, after.get (.busy name .csy) = some content →
        disk.get (.busy name .csy) = some content := by
      intro content found
      rcases consumed with gone | stays
      · simp [gone] at found
      · exact stays.1.symm.trans found
    refine ⟨by simp [unblocked], fun _ => ⟨?_, ?_, ?_⟩⟩
    · rintro ⟨present, live⟩
      obtain ⟨content, found⟩ := Option.ne_none_iff_exists'.mp present
      exact unblocked ⟨by simp [less content found], status kept ▸ live⟩
    · rintro ⟨room, mine, free⟩
      rw [frame.dirs] at room
      rw [status kept] at free
      refine unconvertible ⟨room, ?_, free⟩
      have found := less _ mine
      rwa [frame.self] at found
    · simp [mine_iff_own, status kept, unconvertible]

/-- A conversion of one name does not touch another. -/
theorem conversion_apart {other : Bytes}
    (result : LinkResult disk after (.busy name .bsy) (.busy name .csy) rc)
    (apart : other ≠ name) :
    (after.Blocks other ↔ disk.Blocks other) ∧ (after.Convertible other ↔ disk.Convertible other) ∧
      (after.Mine (.busy other .bsy) ↔ disk.Mine (.busy other .bsy)) := by
  have same : ∀ ext, after.get (.busy other ext) = disk.get (.busy other ext) :=
    fun ext => result.frame.others _ (by simp [apart])
  have status := @status_congr disk after (.busy other .bsy)
    (.busy other .bsy) result.frame.self result.frame.alive (same .bsy)
  simp only [Disk.Blocks, Disk.Convertible, Disk.Mine, same, status, result.frame.self,
    result.frame.dirs, and_self]

/-- Converting the names of a list. It stops exactly where a conversion is
refused. -/
theorem exec_linkAll (disk : Disk) (names locked : List Bytes) :
    let result := exec Disk.handle
      (outBsyFileMakeAll (fun name => plockLink disk.self (.busy name .bsy) (.busy name .csy)) names
        locked) disk
    (result.2.1 = true ↔ ∃ name ∈ names, disk.Blocks name) ∧
      (result.2.1 = false → ∀ name, result.1.Mine (.busy name .bsy) ↔
        disk.Mine (.busy name .bsy) ∨ name ∈ names ∧ disk.Convertible name) := by
  induction names generalizing disk locked with
  | nil => simp [outBsyFileMakeAll]
  | cons name rest inductionHypothesis =>
    have linked := exec_plockLink disk (.busy name .bsy) (.busy name .csy) (by simp)
    obtain ⟨refused, done⟩ := converted linked
    have onward := fun locked => inductionHypothesis
      (exec Disk.handle (plockLink disk.self (.busy name .bsy) (.busy name .csy)) disk).1 locked
    rw [linked.frame.self] at onward
    simp only [outBsyFileMakeAll, exec_bind]
    generalize exec Disk.handle (plockLink disk.self (.busy name .bsy) (.busy name .csy)) disk =
      link at linked refused done onward
    obtain ⟨middle, rc⟩ := link
    -- the rest of the list meets the same obstacles as before this conversion
    have rest_of : rc ≠ .exist → ∀ locked,
        let result := exec Disk.handle
          (outBsyFileMakeAll (fun name => plockLink disk.self (.busy name .bsy) (.busy name .csy))
            rest locked) middle
        (result.2.1 = true ↔ ∃ other ∈ name :: rest, disk.Blocks other) ∧
          (result.2.1 = false → ∀ other, result.1.Mine (.busy other .bsy) ↔
            disk.Mine (.busy other .bsy) ∨ other ∈ name :: rest ∧ disk.Convertible other) := by
      intro unrefused locked
      obtain ⟨unblocked, settled, mine⟩ := done unrefused
      obtain ⟨stops, ends⟩ := onward locked
      refine ⟨stops.trans ⟨?_, ?_⟩, fun finished other => ?_⟩
      · rintro ⟨other, member, blocks⟩
        have apart : other ≠ name := fun same => unblocked (same ▸ blocks)
        exact ⟨other, List.mem_cons_of_mem _ member, (conversion_apart linked apart).1.mp blocks⟩
      · rintro ⟨other, member, blocks⟩
        have apart : other ≠ name := fun same => unrefused (refused.mpr (same ▸ blocks))
        exact ⟨other, (List.mem_cons.mp member).resolve_left apart,
          (conversion_apart linked apart).1.mpr blocks⟩
      · rw [ends finished other]
        by_cases same : other = name
        · subst same
          simp only [settled, and_false, or_false, mine, List.mem_cons_self, true_and]
        · obtain ⟨_, convertible, owned⟩ := conversion_apart linked same
          simp only [convertible, owned, List.mem_cons, same, false_or]
    cases rc with
    | ok => exact rest_of (by simp) _
    | error => exact rest_of (by simp) _
    | ourlock => exact rest_of (by simp) _
    | exist =>
      have blocks := refused.mp rfl
      simp only [exec_done, true_iff, Bool.true_eq_false, false_implies, and_true]
      exact ⟨name, List.mem_cons_self, blocks⟩

end Convert

section Exact

variable (disk : Disk) (conf : OutboundConf) (bsylist : List BsyEntry) (addr : Faddr)
  (csyLocks : Bool)

/-- The call is all or nothing: when it succeeds, nobody else holds a busy file
of the address and every outbound directory of it that exists holds our lock;
when it fails, no busy file it made is left and the list is as before. -/
def AllOrNothing : Prop :=
  let result := exec Disk.handle (outBsyLock disk.self conf bsylist addr csyLocks) disk
  (result.2.1 = 0 →
    (∀ name ∈ outNames conf addr, ∀ ext, ¬ disk.HeldByOther (.busy name ext)) ∧
    ∀ name ∈ outNames conf addr, disk.dirs (Path.busy name (lockext csyLocks)).dir ≠ .missing →
      result.1.Mine (.busy name (lockext csyLocks))) ∧
  (result.2.1 ≠ 0 → disk.NoneMade result.1 ∧ result.2.2 = bsylist)

/-- Nobody else holds a busy file of the address. -/
def Unheld : Prop := ∀ name ∈ outNames conf addr, ∀ ext, ¬ disk.HeldByOther (.busy name ext)

/-- The state of the disk in which `out_bsy_lock` is all or nothing. A lock of a
live process is in its way, so that it refuses, or no file of the address is
held or unclear and our lock is there, or can be put there, wherever an outbound
directory exists. -/
def NothingPassedOver : Prop :=
  match bsylist.find? (convertible addr csyLocks) with
  | none =>
    disk.LiveLock (outNames conf addr) ∨
      Unheld disk conf addr ∧ ∀ name ∈ outNames conf addr,
        disk.dirs (Path.busy name (lockext csyLocks)).dir = .missing ∨ disk.Creatable name ∨
          disk.Mine (.busy name (lockext csyLocks))
  | some entry =>
    (∃ name ∈ entry.names, disk.Blocks name) ∨
      Unheld disk conf addr ∧ ∀ name ∈ outNames conf addr,
        disk.dirs (Path.busy name (lockext csyLocks)).dir = .missing ∨
          disk.Mine (.busy name .bsy) ∨ name ∈ entry.names ∧ disk.Convertible name

/-- A failing call leaves nothing behind. -/
theorem exec_failure :
    let result := exec Disk.handle (outBsyLock disk.self conf bsylist addr csyLocks) disk
    result.2.1 ≠ 0 → disk.NoneMade result.1 ∧ result.2.2 = bsylist :=
  triple_exec (outBsyLock_failure disk conf bsylist addr csyLocks)
    (fun _ => ⟨rfl, rfl, fun _ mine => mine⟩) disk rfl

/-- Locking a node that is not to be converted. -/
theorem allOrNothing_lock_iff
    (absent : bsylist.find? (convertible addr csyLocks) = none) :
    AllOrNothing disk conf bsylist addr csyLocks ↔
      disk.LiveLock (outNames conf addr) ∨
        Unheld disk conf addr ∧ ∀ name ∈ outNames conf addr,
          disk.dirs (Path.busy name (lockext csyLocks)).dir = .missing ∨ disk.Creatable name ∨
            disk.Mine (.busy name (lockext csyLocks)) := by
  have failed := exec_failure disk conf bsylist addr csyLocks
  simp only [AllOrNothing]
  simp only [outBsyLock, absent, exec_bind, exec_done] at failed ⊢
  by_cases live : disk.LiveLock (outNames conf addr)
  · have refused := exec_lockNames_busy disk (outNames conf addr) csyLocks live
    simp only [live, true_or, iff_true]
    exact ⟨fun succeeded => absurd succeeded refused, failed⟩
  · obtain ⟨succeeded, mine⟩ := exec_lockNames_free disk (outNames conf addr) csyLocks live
    simp only [succeeded, forall_const, ne_eq, not_true_eq_false, false_implies, and_true, live,
      false_or, mine]
    refine and_congr_right (fun unheld => forall₂_congr (fun name member => ?_))
    simp only [Disk.Lockable, unheld name member, member, not_false_eq_true, and_true, true_and]
    tauto

/-- Converting a node. -/
theorem allOrNothing_convert_iff (entry : BsyEntry)
    (found : bsylist.find? (convertible addr csyLocks) = some entry) :
    AllOrNothing disk conf bsylist addr csyLocks ↔
      (∃ name ∈ entry.names, disk.Blocks name) ∨
        Unheld disk conf addr ∧ ∀ name ∈ outNames conf addr,
          disk.dirs (Path.busy name (lockext csyLocks)).dir = .missing ∨
            disk.Mine (.busy name .bsy) ∨ name ∈ entry.names ∧ disk.Convertible name := by
  have failed := exec_failure disk conf bsylist addr csyLocks
  obtain rfl : csyLocks = false := by
    have converts := List.find?_some found
    simp only [convertible, Bool.and_eq_true, Bool.not_eq_eq_eq_not, Bool.not_true] at converts
    exact converts.2
  obtain ⟨refused, mine⟩ := exec_linkAll disk entry.names []
  simp only [AllOrNothing]
  simp only [outBsyLock, found, exec_bind, exec_done, outBsyConvertCsyToBsy] at failed ⊢
  by_cases blocks : ∃ name ∈ entry.names, disk.Blocks name
  · have stopped := refused.mpr blocks
    simp only [stopped, if_true, exec_bind, exec_done, blocks, true_or, iff_true] at failed ⊢
    exact ⟨fun succeeded => by simp at succeeded, failed⟩
  · have finished := Bool.eq_false_iff.mpr (fun stopped => blocks (refused.mp stopped))
    have owned := mine finished
    simp only [finished, Bool.false_eq_true, if_false, exec_done, forall_const, ne_eq,
      not_true_eq_false, false_implies, and_true, blocks, false_or, lockext, owned]
    refine and_congr_right (fun unheld => forall₂_congr (fun name member => ?_))
    tauto

end Exact

/-- The main outbound of node 2:5020/1 holds a busy file without a number. -/
def garbledDisk : Disk where
  files := fun path => if path = .busy (ascii "/out/139c0001") .bsy then some .unparsable else none
  dirs := fun dir => if dir = ascii "/out/" then .writable else .missing
  alive := fun _ => false
  self := 7
  errno := .other
  numbered := by decide

/-- A configuration with the main outbound only. -/
def mainOutbound : OutboundConf where
  outboundDirectory := some (ascii "/out/")
  address := some { zone := 2, net := 5020, node := 1398 }
  domains := []
  amigaOutboundDirectory := none

end Binkleyforce
